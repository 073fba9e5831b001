import BlipMQ.Core.Tags

/-!
# Broker — the QoS of a delivery

A subscription has a QoS and a message has one. A delivery has to be acked
if both are QoS 1, and counts as QoS 0 otherwise. The queue combines the two
when a message is enqueued; the paths that push go by the message alone.
-/

namespace BlipMQ.Core

/-! ## What a delivery should look like -/

/-- QoS 1 takes both sides. -/
def agreedQos (subscription message : QoSLevel) : QoSLevel :=
  if subscription = .atLeastOnce ∧ message = .atLeastOnce then .atLeastOnce else .atMostOnce

/-- What a consumer sees beside the message; the tag is 0 where there is nothing
to ack. -/
structure Label where
  qos : QoSLevel
  tag : Nat
  deriving DecidableEq, Repr

/-- A delivery at QoS 1 has a tag and is in flight under it; one at QoS 0 has none
and changes nothing in flight. -/
def DeliveredAs (sub sub' : Subscriber) (o : Offer) (label : Label) : QoSLevel → Prop
  | .atLeastOnce => label.qos = .atLeastOnce ∧ label.tag ≠ 0 ∧
      ∃ e : QueueEntry, e.payload = o.payload ∧ e.walId = o.walId ∧
        sub'.queue.inflight = sub.queue.inflight.insert label.tag e
  | .atMostOnce => label = ⟨.atMostOnce, 0⟩ ∧ sub'.queue.inflight = sub.queue.inflight

theorem effectiveQos_eq (subscription message : QoSLevel) :
    SubscriberQueue.effectiveQos subscription message = agreedQos subscription message := by
  cases subscription <;> cases message <;> rfl

namespace Subscriber

/-- What goes out with a service that delivers. -/
def label (sub : Subscriber) : Service → Option Label
  | .push _ o _ sent => if sent then some ⟨o.qos, sub.wireTag o⟩ else none
  | .dequeue now baseDelay =>
    (sub.queue.dequeue now baseDelay).2.map fun d => ⟨d.1.qos, d.2.getD 0⟩
  | _ => none

end Subscriber

/-! ### Where the labels go -/

namespace Broker

variable {E : Externals} {b : Broker} {x now : Nat} {sub : Subscriber} {o : Offer}
  {ttl : Option Nat}

/-- A publish and the replay to one subscriber push the message with its label. -/
theorem deliver_label (hx : b.subscribers.lookup x = some sub) (hmode : sub.mode ≠ .poll)
    (hroom : b.hasRoom sub.mode = true) :
    ∃ label, sub.label (.push now o ttl true) = some label ∧
      (b.deliver E now o ttl x).1 = send E
        { b with subscribers := b.subscribers.insert x (sub.push now o ttl true) } sub.mode
        ⟨x, o.topic, o.payload, label.qos, label.tag⟩ := by
  refine ⟨_, rfl, ?_⟩
  rw [deliver_push hx hmode, if_pos hroom]

/-- The replay at startup does so for slots only. -/
theorem redeliver_label {slot : Nat} (hx : b.subscribers.lookup x = some sub)
    (hmode : sub.mode = .slot slot) :
    ∃ label, sub.label (.push now o (some b.config.messageTtl) true) = some label ∧
      b.redeliver E now o x = send E
        { b with subscribers :=
            b.subscribers.insert x (sub.push now o (some b.config.messageTtl) true) }
        (.slot slot) ⟨x, o.topic, o.payload, label.qos, label.tag⟩ := by
  refine ⟨_, rfl, ?_⟩
  unfold redeliver
  simp only [hx, hmode]

theorem poll_label {subRef : SubscriptionRef} (hreg : b.subscriptions.lookup x = some subRef)
    (hx : b.subscribers.lookup x = some sub) :
    (b.poll now x).2.map (fun m => (⟨m.qos, m.deliveryTag.getD 0⟩ : Label)) =
      sub.label (.dequeue now b.config.retryBaseDelay) := by
  unfold poll
  simp only [hreg, hx, Option.map_map]
  rfl

end Broker

/-! ## Where a stored message comes from -/

namespace Subscriber

variable {sub sub₀ : Subscriber} {svcs : List Service} {o : Offer} {e : QueueEntry}

/-- One of the services has stored the entry for message `o`. Deliveries since then
have counted up its attempts. -/
def Brought (sub₀ : Subscriber) (svcs : List Service) (o : Offer) (e : QueueEntry) : Prop :=
  ∃ before svc after e₀, svcs = before ++ svc :: after ∧
    (sub₀.serveAll before).stored svc = some (o, e₀) ∧
    e = { e₀ with deliveryAttempts := e.deliveryAttempts, nextDeliveryAt := e.nextDeliveryAt }

/-- The message a service delivers: a push its own, a dequeue that of the entry it
takes. -/
def Delivers (sub₀ : Subscriber) (before : List Service) (o : Offer) : Service → Prop
  | .push _ o' _ _ => o' = o
  | .dequeue now baseDelay => ∃ d,
      ((sub₀.serveAll before).queue.dequeue now baseDelay).2 = some d ∧ Brought sub₀ before o d.1
  | _ => False

theorem Brought.append (h : Brought sub₀ svcs o e) (svc : Service) :
    Brought sub₀ (svcs ++ [svc]) o e := by
  obtain ⟨before, svc', after, e₀, rfl, hstored, hsame⟩ := h
  exact ⟨before, svc', after ++ [svc], e₀, by simp, hstored, hsame⟩

/-- A delivery more or less does not change where an entry comes from. -/
theorem Brought.redelivered {e' : QueueEntry} (h : Brought sub₀ svcs o e)
    (hsame : e = { e' with
      deliveryAttempts := e.deliveryAttempts, nextDeliveryAt := e.nextDeliveryAt }) :
    Brought sub₀ svcs o e' := by
  obtain ⟨before, svc, after, e₀, hsplit, hstored, heq⟩ := h
  refine ⟨before, svc, after, e₀, hsplit, hstored, ?_⟩
  obtain ⟨tag, payload, qos, walId, createdAt, ttl, attempts, time⟩ := e
  obtain ⟨tag', payload', qos', walId', createdAt', ttl', attempts', time'⟩ := e'
  cases hsame
  cases heq
  rfl

theorem Brought.message (h : Brought sub₀ svcs o e) :
    e.payload = o.payload ∧ e.walId = o.walId := by
  obtain ⟨before, svc, after, e₀, -, hstored, hsame⟩ := h
  have hoffer : e₀.payload = o.payload ∧ e₀.walId = o.walId := by
    rcases stored_cases hstored with ⟨now, ttl, -, rfl⟩ | ⟨now, ttl, sent, -, -, rfl⟩
    · exact ⟨rfl, rfl⟩
    · exact ⟨rfl, rfl⟩
  rw [hsame]
  exact hoffer

theorem ofMessage_brought (sub₀ : Subscriber) (svcs : List Service) :
    SubscriberQueue.OfMessage fun e => ∃ o, Brought sub₀ svcs o e := by
  rintro e attempts time ⟨o, before, svc, after, e₀, hsplit, hstored, hsame⟩
  refine ⟨o, before, svc, after, e₀, hsplit, hstored, ?_⟩
  rw [hsame]

/-- Everything stored was brought by a service. -/
theorem stores_brought (sub₀ : Subscriber) (hempty : sub₀.queue.Stores fun _ => False)
    (svcs : List Service) :
    (sub₀.serveAll svcs).queue.Stores fun e => ∃ o, Brought sub₀ svcs o e := by
  induction svcs using List.reverseRecOn with
  | nil => exact hempty.mono fun _ h => h.elim
  | append_singleton svcs svc ih =>
    rw [serveAll_append]
    refine stores_of_stored (ofMessage_brought sub₀ _) ?_ svc ?_
    · exact ih.mono fun e h => h.imp fun o ho => ho.append svc
    · intro o e he
      exact ⟨o, svcs, svc, [], e, by simp, he, rfl⟩

/-! ## What the QoS of a stored message is -/

/-- The tick changes neither the QoS of the subscription nor the next tag. -/
theorem header_sweep (q : SubscriberQueue) (now maxRetries : Nat) :
    (q.sweep now maxRetries).1.defaultQos = q.defaultQos ∧
      (q.sweep now maxRetries).1.nextTag = q.nextTag := by
  have hexpire : (SubscriberQueue.expireLoop now q).1.defaultQos = q.defaultQos ∧
      (SubscriberQueue.expireLoop now q).1.nextTag = q.nextTag := by
    rw [SubscriberQueue.expireLoop_foldl]
    refine List.foldlRecOn (motive := fun s : SubscriberQueue.Sweep =>
      s.1.defaultQos = q.defaultQos ∧ s.1.nextTag = q.nextTag) _ _ ⟨rfl, rfl⟩ fun s hs x _ => ?_
    unfold SubscriberQueue.expireOne
    split
    · split <;> exact hs
    · split
      · split <;> exact hs
      · exact hs
  rw [SubscriberQueue.sweep, SubscriberQueue.retryLoop_foldl]
  refine List.foldlRecOn (motive := fun s : SubscriberQueue.Sweep =>
    s.1.defaultQos = q.defaultQos ∧ s.1.nextTag = q.nextTag) _ _ hexpire fun s hs x _ => ?_
  unfold SubscriberQueue.retryOne
  split
  · exact hs
  · split
    · exact hs
    · split <;> exact hs

theorem header_dequeue (q : SubscriberQueue) (now baseDelay : Nat) :
    (q.dequeue now baseDelay).1.defaultQos = q.defaultQos ∧
      (q.dequeue now baseDelay).1.nextTag = q.nextTag := by
  rcases q.dequeue_cases now baseDelay with ⟨-, heq⟩ | ⟨dead, t, rest, e, -, -, -, -, heq⟩
  · rw [heq]
    exact ⟨rfl, rfl⟩
  · rw [heq]
    cases e.qos <;> exact ⟨rfl, rfl⟩

theorem defaultQos_serve (sub : Subscriber) (svc : Service) :
    (sub.serve svc).queue.defaultQos = sub.queue.defaultQos := by
  cases svc with
  | enqueue now o ttl => rfl
  | push now o ttl sent =>
    obtain ⟨inflight, heap, hqueue⟩ := push_queue sub now o ttl sent
    show (sub.push now o ttl sent).queue.defaultQos = _
    rw [hqueue]
  | dequeue now baseDelay => exact (header_dequeue sub.queue now baseDelay).1
  | ack tag => rfl
  | tick now maxRetries => exact (header_sweep sub.queue now maxRetries).1

theorem defaultQos_serveAll (sub : Subscriber) (svcs : List Service) :
    (sub.serveAll svcs).queue.defaultQos = sub.queue.defaultQos := by
  induction svcs generalizing sub with
  | nil => rfl
  | cons svc svcs ih => rw [serveAll_cons, ih, defaultQos_serve]

/-- What waits is at QoS 0, and nothing is to be retried. -/
structure Unawaited (q : SubscriberQueue) : Prop where
  pending : ∀ t e, q.pendingEntries.lookup t = some e → e.qos = .atMostOnce
  retryHeap : q.retryHeap = []

/-- A subscription at QoS 0 awaits no ack for what it is handed from its queue. -/
theorem Unawaited.serve (h : Unawaited sub.queue) (hqos : sub.queue.defaultQos = .atMostOnce)
    (svc : Service) : Unawaited (sub.serve svc).queue := by
  cases svc with
  | enqueue now o ttl =>
    refine ⟨forall_lookup_insert (fun t e hl => ?_) ?_, h.retryHeap⟩
    · exact h.pending t e (SubscriberQueue.lookup_makeRoom hl)
    · show SubscriberQueue.effectiveQos sub.queue.defaultQos o.qos = .atMostOnce
      rw [hqos]
      rfl
  | push now o ttl sent =>
    obtain ⟨inflight, heap, hqueue⟩ := push_queue sub now o ttl sent
    show Unawaited (sub.push now o ttl sent).queue
    rw [hqueue]
    exact ⟨h.pending, h.retryHeap⟩
  | dequeue now baseDelay =>
    show Unawaited (sub.queue.dequeue now baseDelay).1
    rcases sub.queue.dequeue_cases now baseDelay with
      ⟨-, heq⟩ | ⟨dead, t, rest, e, -, -, hl, -, heq⟩
    · rw [heq]
      exact ⟨h.pending, h.retryHeap⟩
    · rw [heq, h.pending t e hl]
      exact ⟨forall_lookup_erase h.pending t, h.retryHeap⟩
  | ack tag => exact ⟨h.pending, h.retryHeap⟩
  | tick now maxRetries =>
    obtain ⟨-, hkept, hretry⟩ := sweep_of_no_retries h.retryHeap now maxRetries
    exact ⟨fun t e hl => h.pending t e (hkept t e hl), hretry⟩

theorem Unawaited.serveAll (h : Unawaited sub.queue) (hqos : sub.queue.defaultQos = .atMostOnce)
    (svcs : List Service) : Unawaited (sub.serveAll svcs).queue := by
  induction svcs generalizing sub with
  | nil => exact h
  | cons svc svcs ih =>
    rw [serveAll_cons]
    exact ih (h.serve hqos svc) ((defaultQos_serve sub svc).trans hqos)

/-- What waits for a consumer waits at the QoS that was agreed. A message that was
pushed can be among it: an item of the retry heap may have its tag. -/
theorem qos_of_waiting {t : Nat} (hempty : Unawaited sub₀.queue)
    (hl : (sub₀.serveAll svcs).queue.pendingEntries.lookup t = some e)
    (hbrought : Brought sub₀ svcs o e) :
    e.qos = agreedQos sub₀.queue.defaultQos o.qos := by
  cases hqos : sub₀.queue.defaultQos with
  | atMostOnce =>
    rw [(hempty.serveAll hqos svcs).pending t e hl]
    rfl
  | atLeastOnce =>
    obtain ⟨before, svc, after, e₀, -, hstored, hsame⟩ := hbrought
    have hq : e.qos = e₀.qos := by rw [hsame]
    rw [hq]
    rcases stored_cases hstored with ⟨now, ttl, -, rfl⟩ | ⟨now, ttl, sent, -, hpushed, rfl⟩
    · show SubscriberQueue.effectiveQos (sub₀.serveAll before).queue.defaultQos o.qos = _
      rw [defaultQos_serveAll, hqos, effectiveQos_eq]
    · rw [hpushed]
      rfl

/-! ## The two ways to deliver -/

/-- A push is as agreed unless the subscription is at QoS 0 and the message is not. -/
theorem push_deliveredAs_iff (sub : Subscriber) (q : QoSLevel) (now : Nat) (o : Offer)
    (ttl : Option Nat) :
    DeliveredAs sub (sub.push now o ttl true) o ⟨o.qos, sub.wireTag o⟩ (agreedQos q o.qos) ↔
      (q = .atLeastOnce ∨ o.qos = .atMostOnce) ∧
        (q = .atLeastOnce → o.qos = .atLeastOnce → sub.wireTag o ≠ 0) := by
  obtain ⟨walId, topic, payload, m⟩ := o
  cases q with
  | atMostOnce =>
    cases m with
    | atMostOnce => exact iff_of_true ⟨rfl, rfl⟩ ⟨.inr rfl, fun h => by cases h⟩
    | atLeastOnce =>
      refine iff_of_false ?_ ?_
      · rintro ⟨hlabel, -⟩
        cases (Label.mk.inj hlabel).1
      · rintro ⟨h | h, -⟩ <;> cases h
  | atLeastOnce =>
    cases m with
    | atMostOnce => exact iff_of_true ⟨rfl, rfl⟩ ⟨.inl rfl, fun _ h => by cases h⟩
    | atLeastOnce =>
      constructor
      · rintro ⟨-, htag, -⟩
        exact ⟨.inl rfl, fun _ _ => htag⟩
      · rintro ⟨-, htag⟩
        exact ⟨rfl, htag rfl rfl, _, rfl, rfl, rfl⟩

/-- The entry `dequeue` hands out waited in the queue; only at QoS 1 it goes in flight. -/
theorem dequeue_some {q : SubscriberQueue} {now baseDelay : Nat} {d : QueueEntry × Option Nat}
    (hd : (q.dequeue now baseDelay).2 = some d) :
    ∃ t e, q.pendingEntries.lookup t = some e ∧
      d.1 = { e with
        deliveryAttempts := d.1.deliveryAttempts, nextDeliveryAt := d.1.nextDeliveryAt } ∧
      (e.qos = .atMostOnce ∧ d.2 = none ∧ (q.dequeue now baseDelay).1.inflight = q.inflight ∨
        e.qos = .atLeastOnce ∧ d.2 = some e.tag ∧
          (q.dequeue now baseDelay).1.inflight = q.inflight.insert e.tag d.1) := by
  rcases q.dequeue_cases now baseDelay with ⟨-, heq⟩ | ⟨dead, t, rest, e, -, -, hl, -, heq⟩
  · rw [heq] at hd
    cases hd
  · refine ⟨t, e, hl, ?_⟩
    rw [heq] at hd ⊢
    obtain ⟨tag, payload, qos, walId, createdAt, ttl, attempts, time⟩ := e
    cases qos with
    | atMostOnce =>
      cases hd
      exact ⟨rfl, .inl ⟨rfl, rfl, rfl⟩⟩
    | atLeastOnce =>
      cases hd
      exact ⟨rfl, .inr ⟨rfl, rfl, rfl⟩⟩

theorem agreedQos_eq_atLeastOnce {q m : QoSLevel} (h : agreedQos q m = .atLeastOnce) :
    q = .atLeastOnce ∧ m = .atLeastOnce := by
  cases q <;> cases m <;> first | exact ⟨rfl, rfl⟩ | cases h

/-- What is taken from the queue is delivered as agreed. -/
theorem dequeue_deliveredAs_iff (hempty : Unawaited sub₀.queue) {now baseDelay : Nat}
    {d : QueueEntry × Option Nat}
    (hd : ((sub₀.serveAll svcs).queue.dequeue now baseDelay).2 = some d)
    (hbrought : Brought sub₀ svcs o d.1) :
    DeliveredAs (sub₀.serveAll svcs) ((sub₀.serveAll svcs).serve (.dequeue now baseDelay)) o
        ⟨d.1.qos, d.2.getD 0⟩ (agreedQos sub₀.queue.defaultQos o.qos) ↔
      (sub₀.queue.defaultQos = .atLeastOnce → o.qos = .atLeastOnce → d.2.getD 0 ≠ 0) := by
  obtain ⟨t, e, hl, hsame, hcases⟩ := dequeue_some hd
  have he : Brought sub₀ svcs o e := hbrought.redelivered hsame
  have hqos := qos_of_waiting hempty hl he
  have hdqos : d.1.qos = e.qos := by rw [hsame]
  rw [hdqos, ← hqos]
  rcases hcases with ⟨hzero, hnone, hinflight⟩ | ⟨hone, htag, hinflight⟩
  · rw [hzero, hnone]
    refine iff_of_true ⟨rfl, hinflight⟩ fun hq hm => ?_
    rw [hq, hm, hzero] at hqos
    cases hqos
  · rw [hone] at hqos
    obtain ⟨hq, hm⟩ := agreedQos_eq_atLeastOnce hqos.symm
    rw [hone, htag]
    constructor
    · rintro ⟨-, hne, -⟩ - -
      exact hne
    · intro hne
      exact ⟨rfl, hne hq hm, d.1, hbrought.message.1, hbrought.message.2, hinflight⟩

/-! ## Tags are not zero before a counter wraps -/

/-- Both counters have counted the offers. -/
def Counted (sub : Subscriber) : Prop :=
  ∃ n m, sub.queue.nextTag = (n + 1) % 2 ^ 64 ∧ sub.pushNextTag = (m + 1) % 2 ^ 64 ∧
    n + m = sub.offered.length

theorem Counted.serve (h : Counted sub) (svc : Service) : Counted (sub.serve svc) := by
  obtain ⟨n, m, hnext, hpush, hlen⟩ := h
  cases svc with
  | enqueue now o ttl =>
    refine ⟨n + 1, m, ?_, hpush, ?_⟩
    · show (sub.queue.nextTag + 1) % 2 ^ 64 = _
      rw [hnext, Nat.mod_add_mod]
    · show _ = (sub.offered ++ [o]).length
      rw [List.length_append, List.length_singleton]
      omega
  | push now o ttl sent =>
    refine ⟨n, m + 1, ?_, ?_, ?_⟩
    · obtain ⟨inflight, heap, hqueue⟩ := push_queue sub now o ttl sent
      show (sub.push now o ttl sent).queue.nextTag = _
      rw [hqueue]
      exact hnext
    · show (sub.pushNextTag + 1) % 2 ^ 64 = _
      rw [hpush, Nat.mod_add_mod]
    · show _ = (sub.offered ++ [o]).length
      rw [List.length_append, List.length_singleton]
      omega
  | dequeue now baseDelay =>
    exact ⟨n, m, (header_dequeue sub.queue now baseDelay).2.trans hnext, hpush, hlen⟩
  | ack tag => exact ⟨n, m, hnext, hpush, hlen⟩
  | tick now maxRetries =>
    exact ⟨n, m, (header_sweep sub.queue now maxRetries).2.trans hnext, hpush, hlen⟩

theorem Counted.serveAll (h : Counted sub) (svcs : List Service) : Counted (sub.serveAll svcs) := by
  induction svcs generalizing sub with
  | nil => exact h
  | cons svc svcs ih => exact ih (h.serve svc)

theorem Counted.ne_zero (h : Counted sub) (hlt : sub.offered.length + 1 < 2 ^ 64) :
    sub.queue.nextTag ≠ 0 ∧ sub.pushNextTag ≠ 0 := by
  obtain ⟨n, m, hnext, hpush, hlen⟩ := h
  rw [hnext, hpush, Nat.mod_eq_of_lt (by omega), Nat.mod_eq_of_lt (by omega)]
  exact ⟨Nat.succ_ne_zero n, Nat.succ_ne_zero m⟩

variable {svc : Service} {label : Label}

/-- A service that stores or pushes is one more offer. -/
theorem length_offered_lt {before after : List Service} (hoffer : svc.offer? = some o) :
    (sub₀.serveAll before).offered.length <
      (sub₀.serveAll (before ++ svc :: after)).offered.length := by
  rw [offered_serveAll, offered_serveAll, List.filterMap_append, List.filterMap_cons_some hoffer]
  simp only [List.length_append, List.length_cons]
  omega

theorem Brought.tag_ne_zero (hcounted : Counted sub₀) (h : Brought sub₀ svcs o e)
    (hlt : (sub₀.serveAll svcs).offered.length < 2 ^ 64) : e.tag ≠ 0 := by
  obtain ⟨before, svc, after, e₀, rfl, hstored, hsame⟩ := h
  have htag : e.tag = e₀.tag := by rw [hsame]
  rw [htag]
  have hbefore := hcounted.serveAll before
  rcases stored_cases hstored with ⟨now, ttl, rfl, rfl⟩ | ⟨now, ttl, sent, rfl, -, rfl⟩
  · exact (hbefore.ne_zero (Nat.lt_of_le_of_lt (length_offered_lt rfl) hlt)).1
  · exact (hbefore.ne_zero (Nat.lt_of_le_of_lt (length_offered_lt rfl) hlt)).2

/-! ## Every delivery -/

/-- What delivers is a push that is sent, or a dequeue that finds an entry. -/
theorem Delivers.cases (hdelivers : sub₀.Delivers svcs o svc)
    (hlabel : (sub₀.serveAll svcs).label svc = some label) :
    (∃ now ttl, svc = .push now o ttl true ∧
        label = ⟨o.qos, (sub₀.serveAll svcs).wireTag o⟩) ∨
      ∃ now baseDelay d, svc = .dequeue now baseDelay ∧
        ((sub₀.serveAll svcs).queue.dequeue now baseDelay).2 = some d ∧
        Brought sub₀ svcs o d.1 ∧ label = ⟨d.1.qos, d.2.getD 0⟩ := by
  cases svc with
  | push now o' ttl sent =>
    cases hdelivers
    cases sent with
    | false => cases hlabel
    | true =>
      cases hlabel
      exact .inl ⟨now, ttl, rfl, rfl⟩
  | dequeue now baseDelay =>
    obtain ⟨d, hd, hbrought⟩ := hdelivers
    unfold Subscriber.label at hlabel
    dsimp only at hlabel
    rw [hd] at hlabel
    cases hlabel
    exact .inr ⟨now, baseDelay, d, rfl, hd, hbrought, rfl⟩
  | _ => cases hlabel

theorem delivered_iff (hempty : Unawaited sub₀.queue)
    (hlabel : (sub₀.serveAll svcs).label svc = some label) (hdelivers : sub₀.Delivers svcs o svc) :
    DeliveredAs (sub₀.serveAll svcs) ((sub₀.serveAll svcs).serve svc) o label
        (agreedQos sub₀.queue.defaultQos o.qos) ↔
      (svc.isPush = true → sub₀.queue.defaultQos = .atLeastOnce ∨ o.qos = .atMostOnce) ∧
        (sub₀.queue.defaultQos = .atLeastOnce → o.qos = .atLeastOnce → label.tag ≠ 0) := by
  rcases hdelivers.cases hlabel with
    ⟨now, ttl, rfl, rfl⟩ | ⟨now, baseDelay, d, rfl, hd, hbrought, rfl⟩
  · have hiff := push_deliveredAs_iff (sub₀.serveAll svcs) sub₀.queue.defaultQos now o ttl
    refine hiff.trans (and_congr_left' ?_)
    exact ⟨fun h _ => h, fun h => h rfl⟩
  · refine (dequeue_deliveredAs_iff hempty hd hbrought).trans ?_
    exact ⟨fun h => ⟨fun hpush => (by cases hpush), h⟩, fun h => h.2⟩

/-- A service that delivers delivers some message. -/
theorem exists_delivers (hnew : sub₀.queue.Stores fun _ => False)
    (hlabel : (sub₀.serveAll svcs).label svc = some label) : ∃ o, sub₀.Delivers svcs o svc := by
  cases svc with
  | push now o ttl sent => exact ⟨o, rfl⟩
  | dequeue now baseDelay =>
    obtain ⟨d, hd, -⟩ := Option.map_eq_some_iff.mp hlabel
    have hstores := stores_brought sub₀ hnew svcs
    obtain ⟨o, hbrought⟩ := (hstores.dequeue (ofMessage_brought sub₀ svcs) now baseDelay).2 d hd
    exact ⟨o, d, hd, hbrought⟩
  | _ => cases hlabel

theorem label_tag_ne_zero (hempty : Unawaited sub₀.queue) (hcounted : Counted sub₀)
    {after : List Service} (hlabel : (sub₀.serveAll svcs).label svc = some label)
    (hdelivers : sub₀.Delivers svcs o svc)
    (hlt : (sub₀.serveAll (svcs ++ svc :: after)).offered.length < 2 ^ 64)
    (hq : sub₀.queue.defaultQos = .atLeastOnce) (hm : o.qos = .atLeastOnce) : label.tag ≠ 0 := by
  rcases hdelivers.cases hlabel with
    ⟨now, ttl, rfl, rfl⟩ | ⟨now, baseDelay, d, rfl, hd, hbrought, rfl⟩
  · show (sub₀.serveAll svcs).wireTag o ≠ 0
    rw [wireTag, if_pos hm]
    have hbefore := hcounted.serveAll svcs
    exact (hbefore.ne_zero (Nat.lt_of_le_of_lt (length_offered_lt rfl) hlt)).2
  · obtain ⟨t, e, hl, hsame, hcases⟩ := dequeue_some hd
    have he := hbrought.redelivered hsame
    have hqos := qos_of_waiting hempty hl he
    have hle : (sub₀.serveAll svcs).offered.length < 2 ^ 64 := by
      rw [offered_serveAll] at hlt ⊢
      rw [List.filterMap_append] at hlt
      simp only [List.length_append] at hlt ⊢
      omega
    rcases hcases with ⟨hzero, -, -⟩ | ⟨-, htag, -⟩
    · rw [hzero, hq, hm] at hqos
      cases hqos
    · show d.2.getD 0 ≠ 0
      rw [htag]
      exact he.tag_ne_zero hcounted hle

end Subscriber

/-- **When a delivery is as agreed.** For every delivery of every run, from the queue
or by a push, on each of the paths: a message taken from the queue always is; a
pushed one is unless the subscription is at QoS 0 and the message at QoS 1. Tags
are not zero as long as there were fewer than `2 ^ 64` offers. -/
theorem System.deliveries_as_agreed_iff (E : Externals) (config : BrokerConfig) (hasWal : Bool)
    (acts : List BrokerAction) (x : Nat) (sub : Subscriber)
    (hx : ((System.new config hasWal).run E acts).broker.subscribers.lookup x = some sub) :
    let svcs := servicesOf x ((System.new config hasWal).services E acts)
    let q := sub.queue.defaultQos
    ∃ clientId capacity home,
      let sub₀ := Subscriber.new clientId q capacity sub.mode home
      sub = sub₀.serveAll svcs ∧
      ∀ before svc after label, svcs = before ++ svc :: after →
        (sub₀.serveAll before).label svc = some label →
        (∃ o, sub₀.Delivers before o svc) ∧
        ∀ o, sub₀.Delivers before o svc →
          (DeliveredAs (sub₀.serveAll before) ((sub₀.serveAll before).serve svc) o label
              (agreedQos q o.qos) ↔
            (svc.isPush = true → q = .atLeastOnce ∨ o.qos = .atMostOnce) ∧
              (q = .atLeastOnce → o.qos = .atLeastOnce → label.tag ≠ 0)) ∧
          (sub.offered.length < 2 ^ 64 → q = .atLeastOnce → o.qos = .atLeastOnce →
            label.tag ≠ 0) := by
  intro svcs q
  obtain ⟨clientId, qos, capacity, mode, home, hlife⟩ :=
    (lives_run E config hasWal acts).life x sub hx
  have hmode : mode = sub.mode := by
    rw [hlife, Subscriber.mode_serveAll]
    rfl
  have hqos : qos = q := by
    show qos = sub.queue.defaultQos
    rw [hlife, Subscriber.defaultQos_serveAll]
    rfl
  subst hmode hqos
  have hempty : Subscriber.Unawaited (SubscriberQueue.new q capacity) :=
    ⟨fun _ _ h => (by cases h), rfl⟩
  refine ⟨clientId, capacity, home, hlife, fun before svc after label hsplit hlabel => ?_⟩
  refine ⟨Subscriber.exists_delivers (.new ..) hlabel, fun o hdelivers => ⟨?_, ?_⟩⟩
  · exact Subscriber.delivered_iff hempty hlabel hdelivers
  · intro hlt hq hm
    rw [hlife] at hlt
    change (Subscriber.serveAll _ svcs).offered.length < 2 ^ 64 at hlt
    rw [hsplit] at hlt
    exact Subscriber.label_tag_ne_zero hempty ⟨0, 0, rfl, rfl, rfl⟩ hlabel hdelivers hlt hq hm

/-- A subscription at QoS 1 to topic `a`, over a slot, is pushed a message at QoS 1. -/
theorem System.deliveries_as_agreed_iff_slot :
    let o : Offer := ⟨none, "a", [1], .atLeastOnce⟩
    let acts : List BrokerAction := [.subscribe "c" "a" .atLeastOnce (some 1) (.slot 1) none,
      .publish 0 none o none none]
    ∃ sub sub₀, ((System.new .default false).run bareExternals acts).broker.subscribers.lookup 1 =
        some sub ∧ DeliveredAs sub₀ sub o ⟨.atLeastOnce, 1⟩ .atLeastOnce := by
  intro o acts
  obtain ⟨sub, hx, hq⟩ : ∃ sub, ((System.new .default false).run bareExternals
      acts).broker.subscribers.lookup 1 = some sub ∧ sub.queue.defaultQos = .atLeastOnce := by
    decide +kernel
  have hsvcs : servicesOf 1 ((System.new .default false).services bareExternals acts) =
      [.push 0 o (some BrokerConfig.default.messageTtl) true] := by decide +kernel
  obtain ⟨clientId, capacity, home, hlife, hall⟩ :=
    System.deliveries_as_agreed_iff bareExternals .default false acts 1 sub hx
  have hdelivery := (hall [] _ [] ⟨.atLeastOnce, 1⟩ hsvcs rfl).2 o rfl
  have has : DeliveredAs _ (Subscriber.serveAll (.new clientId sub.queue.defaultQos capacity
      sub.mode home) [.push 0 o (some BrokerConfig.default.messageTtl) true]) o _ _ :=
    hdelivery.1.mpr ⟨fun _ => .inl hq, fun _ _ => Nat.one_ne_zero⟩
  rw [← hsvcs, ← hlife, hq] at has
  exact ⟨sub, _, hx, has⟩

/-- A subscription at QoS 0 is pushed a message at QoS 1 with a tag, and the delivery
stays in flight. From the queue it would have got it without. -/
theorem push_ignores_subscription :
    let o : Offer := ⟨none, "a", [1], .atLeastOnce⟩
    let acts (mode : DeliveryMode) : List BrokerAction :=
      [.subscribe "c" "a" .atMostOnce (some 1) mode none, .publish 0 none o none none, .poll 0 1]
    let sub₀ (mode : DeliveryMode) := Subscriber.new "c" .atMostOnce 1024 mode ⟨"a", none⟩
    let svcs (mode : DeliveryMode) :=
      servicesOf 1 ((System.new .default false).services bareExternals (acts mode))
    let after (mode : DeliveryMode) :=
      (((System.new .default false).run bareExternals (acts mode)).broker.subscribers.lookup
        1).map fun sub => (sub.queue.inflight.lookup 1).map QueueEntry.payload
    ((svcs (.slot 1)).head?.bind (sub₀ (.slot 1)).label = some ⟨.atLeastOnce, 1⟩ ∧
      after (.slot 1) = some (some [1])) ∧
    ((svcs .poll)[1]?.bind (((sub₀ .poll).serveAll ((svcs .poll).take 1)).label) =
        some ⟨.atMostOnce, 0⟩ ∧
      after .poll = some none) := by
  decide +kernel

end BlipMQ.Core
