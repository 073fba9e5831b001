import BlipMQ.Core.Targets
import BlipMQ.Net.Deliver
import BlipMQ.Net.Server

/-!
# Net — wildcards over the wire

A SUBSCRIBE frame carries one name, and its handler registers the name as
a topic, whatever signs are in it. The subscription is pushed what is
published under exactly this name. What a pattern of the same text would
match beside that does not reach it.
-/

namespace BlipMQ.Core

/-! ## What a fan-out does to the buffer of a slot -/

namespace Broker

variable {E : Externals} {b : Broker} {o : Offer} {now slot x : Nat} {ttl : Option Nat}

/-- The fan-out loop over some subscriptions. -/
def serveIds (E : Externals) (b : Broker) (now : Nat) (o : Offer) (ttl : Option Nat)
    (ids : List Nat) : Broker :=
  ids.foldl (fun b x => (b.deliver E now o ttl x).1) b

theorem serveIds_cons (x : Nat) (ids : List Nat) : b.serveIds E now o ttl (x :: ids) =
    (b.deliver E now o ttl x).1.serveIds E now o ttl ids := rfl

theorem serveIds_append (ids ids' : List Nat) : b.serveIds E now o ttl (ids ++ ids') =
    (b.serveIds E now o ttl ids).serveIds E now o ttl ids' := List.foldl_append

theorem serveIds_serves (E : Externals) (b : Broker) (now : Nat) (o : Offer) (ttl : Option Nat)
    (ids : List Nat) : ∃ svcs, Serves b (b.serveIds E now o ttl ids) svcs :=
  ⟨_, Serves.fold (fun _ _ => deliver_serves ..) b ids⟩

theorem serveIds_standing (ids : List Nat) :
    (b.serveIds E now o ttl ids).standing = b.standing :=
  foldl_standing (fun _ _ => (deliver_served ..).standing) b ids

/-- Who is not served over the slot adds nothing to its buffer. -/
theorem buffer_serveIds_of_ne {ids : List Nat}
    (h : ∀ x ∈ ids, ∀ sub, b.subscribers.lookup x = some sub → sub.mode ≠ .slot slot)
    (now : Nat) (o : Offer) (ttl : Option Nat) :
    (b.serveIds E now o ttl ids).buffer slot = b.buffer slot := by
  induction ids generalizing b with
  | nil => rfl
  | cons x ids ih =>
    have hserves := deliver_serves (E := E) (b := b) now o ttl x
    rw [serveIds_cons, ih, buffer_deliver]
    · cases hx : b.subscribers.lookup x with
      | none => rfl
      | some sub => exact if_neg fun hslot => h x List.mem_cons_self sub hx hslot.1
    · intro y hy sub' hsub'
      rw [hserves.subscribers] at hsub'
      obtain ⟨sub, hsub, rfl⟩ := Option.map_eq_some_iff.mp hsub'
      rw [Subscriber.mode_serveAll]
      exact h y (List.mem_cons_of_mem _ hy) sub hsub

theorem slots_unsubscribeOne (b : Broker) (x : Nat) : (b.unsubscribeOne x).slots = b.slots := by
  unfold unsubscribeOne
  split <;> rfl

theorem slots_endPublish (b : Broker) (record : Option String) (delivered dropped : Nat) :
    (b.endPublish record delivered dropped).slots = b.slots := by
  cases record <;> rfl

/-- What a publish leaves in the slots is what the fan-out loop leaves there. -/
theorem slots_publishInner (hrunning : b.shuttingDown = false) (now : Nat)
    (pre : Option ResolvedTopic) (o : Offer) (ttl : Option Nat) (key : Option Bytes) :
    (b.publishInner E now pre o ttl key).slots =
      ((b.startPublish E (b.record o.topic pre) o.walId key).serveIds E now o
        (ttl.or (some b.config.messageTtl))
        (b.snapshot E (b.record o.topic pre) o.topic key)).slots := by
  have hdrop : ∀ (ids : List Nat) (b : Broker), (ids.foldl unsubscribeOne b).slots = b.slots := by
    intro ids
    induction ids with
    | nil => exact fun _ => rfl
    | cons x ids ih => exact fun b => (ih _).trans (slots_unsubscribeOne b x)
  rcases publishInner_cases E b now pre o ttl key with
    ⟨hdown, -⟩ | ⟨-, b₁, _, _, _, evicted, hfan, -, heq, -⟩
  · rw [hrunning] at hdown
    cases hdown
  · rw [heq, hdrop, slots_endPublish, serveIds, ← fanOut_fst, hfan]

theorem targets_of_running (hrunning : b.shuttingDown = false) (topicName : String)
    (key : Option Bytes) :
    b.targets E topicName key = b.snapshot E (b.record topicName none) topicName key := by
  rw [targets, hrunning, if_neg Bool.false_ne_true]

end Broker

end BlipMQ.Core

namespace BlipMQ.Net

open BlipMQ.Core

section Wire

variable {E : Externals} {b : Broker} {o : Offer} {now slot x : Nat} {ttl : Option Nat}

theorem prefix_makeDeliverEncoder (buf : Bytes) (qos : QoSLevel) (tag : Nat) (topic : String)
    (payload : Bytes) : buf <+: makeDeliverEncoder buf qos tag topic payload := by
  unfold makeDeliverEncoder encodeDeliverFrame
  dsimp only
  by_cases hlong : 2 ^ 16 ≤ (utf8 topic).length
  · rewrite [if_pos hlong]
    exact List.prefix_refl _
  · rw [if_neg hlong]
    by_cases hmax : maxFrameSize < 20 + (utf8 topic).length + payload.length
    · rewrite [if_pos hmax]
      exact List.prefix_refl _
    · rw [if_neg hmax]
      exact List.prefix_append _ _

/-- A buffer only gets longer. -/
theorem prefix_deliver (hE : E.encoder = makeDeliverEncoder) (x slot : Nat) :
    b.buffer slot <+: (b.deliver E now o ttl x).1.buffer slot := by
  rw [Broker.buffer_deliver, hE]
  cases b.subscribers.lookup x with
  | none => exact List.prefix_refl _
  | some sub =>
    dsimp only
    split
    · exact prefix_makeDeliverEncoder ..
    · exact List.prefix_refl _

theorem prefix_serveIds (hE : E.encoder = makeDeliverEncoder) (ids : List Nat) (slot : Nat) :
    b.buffer slot <+: (b.serveIds E now o ttl ids).buffer slot := by
  induction ids generalizing b with
  | nil => exact List.prefix_refl _
  | cons x ids ih => exact (prefix_deliver hE x slot).trans ih

/-- A message for a subscriber on the slot: the buffer gets longer until it is
its turn, and if there is still room then and the frame is not too long, the
next thing in the buffer is the frame. -/
theorem serveIds_gains (hE : E.encoder = makeDeliverEncoder) {ids : List Nat} (hx : x ∈ ids)
    {sub : Subscriber} (hsub : b.subscribers.lookup x = some sub) (hmode : sub.mode = .slot slot)
    (htag : sub.pushNextTag < 2 ^ 64) (htopic : (utf8 o.topic).length < 2 ^ 16) (now : Nat)
    (ttl : Option Nat) :
    ∃ pre rest, (b.serveIds E now o ttl ids).buffer slot = b.buffer slot ++ pre ++ rest ∧
      ((b.buffer slot ++ pre).length < b.config.slowConsumerBufferBytes →
        20 + (utf8 o.topic).length + o.payload.length ≤ maxFrameSize →
        ∃ delivered tag post, rest = delivered ++ post ∧
          AppendsDelivery [] delivered o.qos tag o.topic o.payload) := by
  obtain ⟨before, after, rfl⟩ := List.append_of_mem hx
  obtain ⟨b₁, hb₁⟩ : ∃ b₁, b₁ = b.serveIds E now o ttl before := ⟨_, rfl⟩
  rw [Broker.serveIds_append, Broker.serveIds_cons, ← hb₁]
  obtain ⟨pre, hpre⟩ : b.buffer slot <+: b₁.buffer slot := hb₁ ▸ prefix_serveIds hE before slot
  have hturn : b₁.buffer slot <+: (b₁.deliver E now o ttl x).1.buffer slot :=
    prefix_deliver hE x slot
  have hafter : (b₁.deliver E now o ttl x).1.buffer slot <+:
      ((b₁.deliver E now o ttl x).1.serveIds E now o ttl after).buffer slot :=
    prefix_serveIds hE after slot
  obtain ⟨rest, hrest⟩ := hturn.trans hafter
  refine ⟨pre, rest, by rw [hpre, hrest], fun hroom hfits => ?_⟩
  -- the subscriber may have been served already, but not its slot changed
  obtain ⟨svcs, hserves⟩ := Broker.serveIds_serves E b now o ttl before
  have hsub₁ : b₁.subscribers.lookup x = some (sub.serveAll (servicesOf x svcs)) := by
    rw [hb₁, hserves.subscribers, hsub]
    rfl
  have hconfig : b₁.config = b.config := by
    rw [hb₁]
    exact congrArg Prod.fst (Broker.serveIds_standing before)
  have hroom₁ : b₁.hasRoom (.slot slot) = true := by
    refine decide_eq_true ?_
    show (b₁.buffer slot).length < _
    rw [← hpre, hconfig]
    exact hroom
  have hmode₁ : (sub.serveAll (servicesOf x svcs)).mode = .slot slot := by
    rw [Subscriber.mode_serveAll, hmode]
  have hwire : (sub.serveAll (servicesOf x svcs)).wireTag o < 2 ^ 64 := by
    unfold Subscriber.wireTag
    split
    · exact Subscriber.pushNextTag_lt htag _
    · decide
  obtain ⟨frame, hframe, hdecode⟩ :=
    (makeDeliverEncoder_cases (b₁.buffer slot) o.qos o.payload hwire htopic).1.mpr hfits
  obtain ⟨post, hpost⟩ := hafter
  refine ⟨frameBytes frame, _, post, ?_, frame, rfl, hdecode⟩
  rw [← hpost, Broker.buffer_deliver, hsub₁] at hrest
  dsimp only at hrest
  rw [if_pos ⟨hmode₁, hroom₁⟩, hE, hframe, List.append_assoc] at hrest
  exact List.append_cancel_left hrest

end Wire

/-! ## What a SUBSCRIBE leaves behind -/

/-- Subscription `x` is recorded under `home` for as long as it is there, it is no
wildcard, and it is pushed to over the slot. -/
structure Subscribed (b : Broker) (x : Nat) (home : SubscriptionRef) (slot : Nat) : Prop where
  consistent : b.registry.Consistent
  old : x < b.nextSubscriptionId
  home : ∀ subRef, b.subscriptions.lookup x = some subRef → subRef = home
  wildcard : ∀ p, (p, x) ∉ b.wildcardSubs
  subscriber : ∃ sub, b.subscribers.lookup x = some sub ∧ sub.mode = .slot slot ∧
    sub.pushNextTag < 2 ^ 64

section Subscribed

variable {E : Externals} {b : Broker} {x slot : Nat} {home : SubscriptionRef}

/-- A call gives no new record to a subscription that has one, and no wildcard. -/
theorem act_old (hc : b.registry.Consistent) (hx : x < b.nextSubscriptionId)
    (a : BrokerAction) :
    b.nextSubscriptionId ≤ (b.act E a).nextSubscriptionId ∧
      (∀ subRef, (b.act E a).subscriptions.lookup x = some subRef →
        b.subscriptions.lookup x = some subRef) ∧
      ∀ p, (p, x) ∈ (b.act E a).wildcardSubs → (p, x) ∈ b.wildcardSubs := by
  have hregistry : b.registry.nextId ≤ (b.act E a).registry.nextId ∧
      (∀ subRef, (b.act E a).registry.subscriptions x = some subRef →
        b.registry.subscriptions x = some subRef) ∧
      ∀ p, (p, x) ∈ (b.act E a).registry.wildcards → (p, x) ∈ b.registry.wildcards := by
    rcases System.act_cases E (s := ⟨b, ∅⟩) hc a with ⟨⟨ids, hids⟩, -⟩ | ⟨reg, -, hadd, -⟩
    · change (b.act E a).registry = _ at hids
      rw [hids]
      refine ⟨Nat.le_refl _, fun subRef hsub => ?_, fun p hp => (List.mem_filter.mp hp).1⟩
      change (if x ∈ ids then none else _) = _ at hsub
      split at hsub
      · cases hsub
      · exact hsub
    · change (b.act E a).registry = _ at hadd
      rw [hadd]
      refine ⟨Nat.le_succ _, fun subRef hsub => ?_, fun p hp => ?_⟩
      · change (if x = b.nextSubscriptionId then some _ else _) = _ at hsub
        rwa [if_neg (Nat.ne_of_lt hx)] at hsub
      · rcases List.mem_append.mp hp with hold | hnew
        · exact hold
        · obtain ⟨q, -, heq⟩ := List.mem_map.mp hnew
          cases heq
          exact absurd hx (Nat.lt_irrefl _)
  exact hregistry

theorem Subscribed.of_subscribe (hc : b.registry.Consistent) (clientId topic : String)
    (qos : QoSLevel) (connId : Option Nat) (slot : Nat) (group : Option String) :
    Subscribed (b.subscribeInnerGrouped clientId topic qos connId (.slot slot) group).1
      b.nextSubscriptionId ⟨topic, group⟩ slot := by
  have hadd := Broker.registry_subscribe b clientId topic qos connId (.slot slot) group
  have hspec := Broker.subscribeInnerGrouped_spec b clientId topic qos connId (.slot slot) group
  have hone : 1 < 2 ^ 64 := by decide
  refine ⟨hadd ▸ hc.add .., Nat.lt_succ_self _, ?_, ?_, ⟨_, AList.lookup_insert _, rfl, hone⟩⟩
  · intro subRef hx
    rw [hspec.subscriptions, if_pos rfl] at hx
    exact (Option.some.inj hx).symm
  · intro p hp
    -- the list is as before, and what it names has lower numbers
    have hlive := hc.wildcards_live (p, b.registry.nextId) hp
    rw [hc.nextId_dead] at hlive
    cases hlive

theorem Subscribed.act (h : Subscribed b x home slot) (a : BrokerAction) :
    Subscribed (b.act E a) x home slot := by
  obtain ⟨hnext, hsubs, hwildcards⟩ := act_old (E := E) h.consistent h.old a
  refine ⟨Broker.act_consistent h.consistent a, Nat.lt_of_lt_of_le h.old hnext,
    fun subRef hx => h.home subRef (hsubs subRef hx), fun p hp => h.wildcard p (hwildcards p hp),
    ?_⟩
  obtain ⟨sub, hsub, hmode, htag⟩ := h.subscriber
  cases hnew : b.newSubscriber a with
  | none =>
    refine ⟨_, ((Broker.act_serves E hnew).subscribers x).trans (by rw [hsub]; rfl), ?_, ?_⟩
    · rw [Subscriber.mode_serveAll, hmode]
    · exact Subscriber.pushNextTag_lt htag _
  | some new =>
    refine ⟨sub, ?_, hmode, htag⟩
    rw [(Broker.act_registers (E := E) hnew).subscribers, lookup_insert_eq,
      if_neg (Nat.ne_of_lt h.old), hsub]

/-- Who is recorded under a topic, and as no wildcard, is a target of what is
published there if it is in no group, and of nothing else. -/
theorem Subscribed.count_targets (h : Subscribed b x home slot)
    (hrunning : b.shuttingDown = false) (hlive : x ∈ b.subscriptions) (t : String)
    (key : Option Bytes) :
    (t ≠ home.topic → (b.targets E t key).count x = 0) ∧
      (home.group = none → t = home.topic → (b.targets E t key).count x = 1) := by
  obtain ⟨subRef, hrecord⟩ := Option.isSome_iff_exists.mp (AList.lookup_isSome.mpr hlive)
  obtain rfl := h.home subRef hrecord
  have hwildcard : x ∉ b.wildcardTargets t := by
    intro hx
    obtain ⟨p, hp, -⟩ := (Broker.mem_wildcardTargets h.consistent).mp hx
    exact h.wildcard p hp
  have hchosen : x ∈ b.chosen E t key → ∃ g, subRef = ⟨t, some g⟩ := by
    intro hx
    obtain ⟨g, hg⟩ := Broker.group_of_mem_chosen h.consistent hx
    exact ⟨g, Option.some.inj (hrecord.symm.trans hg)⟩
  rw [Broker.count_targets h.consistent hrunning, if_neg hwildcard, hrecord, Nat.add_zero]
  refine ⟨fun hne => ?_, fun hgroup heq => ?_⟩
  · have hnot : x ∉ b.chosen E t key := by
      intro hx
      obtain ⟨g, rfl⟩ := hchosen hx
      exact hne rfl
    have hrecord' : some subRef ≠ some ⟨t, none⟩ := by
      rintro ⟨⟩
      exact hne rfl
    rw [if_neg hnot, if_neg hrecord']
  · have hnot : x ∉ b.chosen E t key := by
      intro hx
      obtain ⟨g, rfl⟩ := hchosen hx
      cases hgroup
    have hrecord' : subRef = ⟨t, none⟩ := by
      rw [heq, ← hgroup]
    rw [if_neg hnot, hrecord', if_pos rfl]

/-- It is offered a message as often as it is a target. -/
theorem Subscribed.offered (h : Subscribed b x home slot) (now : Nat) (o : Offer)
    (ttl : Option Nat) (key : Option Bytes) :
    b.Offered (b.publishInner E now none o ttl key) o x ((b.targets E o.topic key).count x) := by
  obtain ⟨sub, hsub, -, -⟩ := h.subscriber
  have hledger : b.ledger? x = some sub.ledger := by
    rw [Broker.ledger?, hsub]
    rfl
  refine ⟨sub.ledger, hledger, ?_⟩
  rw [(Broker.publishInner_spec ..).ledger, hledger]
  rfl

end Subscribed

/-! ## What reaches the connection -/

section Publish

variable {E : Externals} {b : Broker} {x slot : Nat} {home : SubscriptionRef}

theorem buffer_startPublish (b : Broker) (record : Option String) (walId : Option Nat)
    (key : Option Bytes) (slot : Nat) :
    (b.startPublish E record walId key).buffer slot = b.buffer slot := by
  cases record <;> rfl

/-- The subscription is a target: the frame gets into the buffer. -/
theorem Subscribed.gains (h : Subscribed b x home slot) (hE : E.encoder = makeDeliverEncoder)
    (hrunning : b.shuttingDown = false) {o : Offer} {key : Option Bytes}
    (htarget : x ∈ b.targets E o.topic key) (htopic : (utf8 o.topic).length < 2 ^ 16)
    (now : Nat) (ttl : Option Nat) :
    ∃ pre rest, (b.publishInner E now none o ttl key).buffer slot = b.buffer slot ++ pre ++ rest ∧
      ((b.buffer slot ++ pre).length < b.config.slowConsumerBufferBytes →
        20 + (utf8 o.topic).length + o.payload.length ≤ maxFrameSize →
        ∃ delivered tag post, rest = delivered ++ post ∧
          AppendsDelivery [] delivered o.qos tag o.topic o.payload) := by
  obtain ⟨sub, hsub, hmode, htag⟩ := h.subscriber
  have hstart : (b.startPublish E (b.record o.topic none) o.walId key).subscribers.lookup x =
      some sub := by
    rw [(Broker.startPublish_same ..).subscribers, hsub]
  have hconfig : (b.startPublish E (b.record o.topic none) o.walId key).config = b.config :=
    congrArg Prod.fst (Broker.startPublish_standing ..)
  have hgains := serveIds_gains hE htarget hstart hmode htag htopic now
    (ttl.or (some b.config.messageTtl))
  rw [buffer_startPublish, hconfig] at hgains
  unfold Broker.buffer at hgains ⊢
  rw [Broker.slots_publishInner hrunning, ← Broker.targets_of_running hrunning]
  exact hgains

/-- Nobody on the slot is a target: the buffer stays as it is. -/
theorem buffer_publishInner_of_ne (hrunning : b.shuttingDown = false) {o : Offer}
    {key : Option Bytes} (hnone : ∀ y ∈ b.targets E o.topic key, ∀ sub,
      b.subscribers.lookup y = some sub → sub.mode ≠ .slot slot)
    (now : Nat) (ttl : Option Nat) :
    (b.publishInner E now none o ttl key).buffer slot = b.buffer slot := by
  rw [← (Broker.startPublish_same E b (b.record o.topic none) o.walId key).subscribers] at hnone
  have hbuffer := Broker.buffer_serveIds_of_ne (E := E) hnone now o
    (ttl.or (some b.config.messageTtl))
  rw [buffer_startPublish] at hbuffer
  unfold Broker.buffer at hbuffer ⊢
  rw [Broker.slots_publishInner hrunning, ← Broker.targets_of_running hrunning]
  exact hbuffer

end Publish

/-- After the ACK of a SUBSCRIBE its subscription is what the ACK says, whatever
happens from then on. -/
theorem subscribed_of_acked {E : Externals} {config : BrokerConfig} {hasWal : Bool} {s : Server}
    (h : s.Sound E config hasWal) {now : Nat} {log : Log} {connId slot : Nat} {frame ack : Frame}
    {payload : SubscribePayload} (hdecode : SubscribePayload.decode frame.payload = .ok payload)
    (hacked : (handleSubscribeSlot E now log s.broker connId frame slot).2 = .ok ack)
    (hack : ack.msgType = .ack) {b : Broker}
    (hleads : (handleSubscribeSlot E now log s.broker connId frame slot).1.Leads E b) :
    Subscribed b s.broker.nextSubscriptionId ⟨payload.topic, payload.group⟩ slot := by
  obtain ⟨qos, hcheck⟩ := checkSubscribe_of_acked hdecode hacked hack
  have hconsistent : s.broker.registry.Consistent :=
    h.reachable.invariant (P := fun b => b.registry.Consistent)
      (fun _ a hb => Broker.act_consistent hb a) (System.Sound.new config hasWal).consistent
  have hregistered := Subscribed.of_subscribe hconsistent (clientIdOf connId) payload.topic qos
    (some connId) slot payload.group
  refine hleads.invariant (P := fun b => Subscribed b _ _ _) (fun _ a hb => hb.act a) ?_
  rcases handleSubscribeSlot_accepted (E := E) (b := s.broker) hdecode hcheck with
    hplain | ⟨offset, hreplayed⟩
  · rw [hplain]
    exact hregistered
  · rw [hreplayed]
    exact hregistered.act (.replayToSubscriber now log _ offset)

/-- **When a SUBSCRIBE with a pattern gets what the pattern matches.** After its ACK,
as long as the subscription is there and the broker runs, for every PUBLISH to a
topic that the pattern matches: if the topic is named like the pattern and the
subscription is in no group, the DELIVER frame follows in the slot, room and
length permitting. If the topic is another one, the subscription is offered
nothing, and nothing is added to a slot that no other one uses. A pattern without
wildcards matches its own name only; which member of a group gets a message to
the group's own topic is the group's choice. -/
theorem pattern_subscribe_delivers_iff (E : Externals) (hE : E.encoder = makeDeliverEncoder)
    (config : BrokerConfig) (hasWal : Bool) (before after : List ServerEvent) (s : Server)
    (hbefore : run (Server.step E) (.new config hasWal) before = some s)
    (now : Nat) (log : Log) (connId slot : Nat) (frame ack : Frame)
    (payload : SubscribePayload) (p : SubjectPattern)
    (hdecode : SubscribePayload.decode frame.payload = .ok payload)
    (hparse : SubjectPattern.parse payload.topic = .ok p)
    (hacked : (handleSubscribeSlot E now log s.broker connId frame slot).2 = .ok ack)
    (hack : ack.msgType = .ack) (f : Fanout)
    (hf : f ∈ outputs (Server.step E) (Server.fanouts E)
      { s with broker := (handleSubscribeSlot E now log s.broker connId frame slot).1 } after)
    (hmatches : p.matches f.topic = true) (hrunning : f.before.shuttingDown = false)
    (hlive : s.broker.nextSubscriptionId ∈ f.before.subscriptions) :
    let x := s.broker.nextSubscriptionId
    let buf := f.before.buffer slot
    let buf' := f.after.buffer slot
    (p.isExact = true → f.topic = payload.topic) ∧
    (f.topic = payload.topic → payload.group = none →
      f.before.Offered f.after f.offer x 1 ∧
      ∃ pre rest, buf' = buf ++ pre ++ rest ∧
        ((buf ++ pre).length < f.before.config.slowConsumerBufferBytes →
          20 + (utf8 f.topic).length + f.payload.message.length ≤ maxFrameSize →
          ∃ delivered tag post, rest = delivered ++ post ∧
            AppendsDelivery [] delivered f.qos tag f.topic f.payload.message)) ∧
    (f.topic ≠ payload.topic →
      f.before.Offered f.after f.offer x 0 ∧
      ((∀ y ∈ f.before.subscriptions, ∀ sub, f.before.subscribers.lookup y = some sub →
        sub.mode = .slot slot → y = x) → buf' = buf)) := by
  intro x buf buf'
  obtain ⟨hsound, -⟩ := (Server.Sound.new E config hasWal).run hbefore
  have hstep : s.step E (.subscribe now log connId frame slot) =
      some { s with broker := (handleSubscribeSlot E now log s.broker connId frame slot).1 } := rfl
  obtain ⟨hspec, hleads⟩ := (hsound.step hstep).1.fanouts_run hf
  have hsubscribed := subscribed_of_acked hsound hdecode hacked hack hleads
  obtain ⟨now', ttl, hafter⟩ := hspec.published
  obtain ⟨frame', haccepted⟩ := hspec.accepted
  have hlength : (utf8 f.topic).length < 2 ^ 16 :=
    length_of_validateTopic (checkPublish_eq_ok haccepted).2.1
  obtain ⟨hother, hown⟩ := hsubscribed.count_targets (E := E) hrunning hlive f.topic f.routingKey
  have hoffered : f.before.Offered f.after f.offer x
      ((f.before.targets E f.topic f.routingKey).count x) := by
    rw [hafter]
    exact hsubscribed.offered now' f.offer ttl f.routingKey
  refine ⟨fun hexact => ?_, fun htopic hgroup => ⟨?_, ?_⟩, fun hne => ⟨?_, fun honly => ?_⟩⟩
  · rw [← (SubjectPattern.parse_eq_ok hparse).1]
    exact (SubjectPattern.matches_iff_of_isExact hparse hexact f.topic).mp hmatches
  · rw [hown hgroup htopic] at hoffered
    exact hoffered
  · have htarget : x ∈ f.before.targets E f.topic f.routingKey :=
      List.count_pos_iff.mp (by rw [hown hgroup htopic]; exact Nat.one_pos)
    show ∃ pre rest, f.after.buffer slot = _ ∧ _
    rw [hafter]
    exact hsubscribed.gains (o := f.offer) hE hrunning htarget hlength now' ttl
  · rw [hother hne] at hoffered
    exact hoffered
  · show f.after.buffer slot = _
    rw [hafter]
    refine buffer_publishInner_of_ne hrunning ?_ now' ttl
    intro y hy sub hsub hmode
    have hthere : y ∈ f.before.subscriptions := by
      by_contra hgone
      have hzero : (f.before.targets E f.topic f.routingKey).count y = 0 :=
        Broker.count_gone hsubscribed.consistent hrunning (AList.lookup_eq_none.mpr hgone)
      exact absurd hy (List.count_eq_zero.mp hzero)
    obtain rfl := honly y hthere sub hsub hmode
    exact absurd hy (List.count_eq_zero.mp (hother hne))

/-! ### One connection subscribes, another one publishes -/

def wireExternals : Externals := ⟨fun _ => 0, fun _ => 0, makeDeliverEncoder⟩

/-- A SUBSCRIBE at QoS 0, without group and offset. -/
def nameSubscribe (topic : String) : Frame := ⟨.subscribe, 1, sized (utf8 topic) ++ [0]⟩

/-- A PUBLISH of one byte at QoS 0, without optional fields. -/
def namePublish (topic : String) : Frame := ⟨.publish, 1, 0 :: (sized (utf8 topic) ++ [7])⟩

/-- What the handler makes of a SUBSCRIBE on a new server. -/
def subscribedTo (topic : String) : Broker × Except FrameEncodeError Frame :=
  handleSubscribeSlot wireExternals 0 (.ofEntries []) (Server.new .default false).broker 1
    (nameSubscribe topic) 1

/-- The fan-out of a PUBLISH after it. -/
def fanoutsTo (topic published : String) : List Fanout :=
  outputs (Server.step wireExternals) (Server.fanouts wireExternals)
    { Server.new .default false with broker := (subscribedTo topic).1 }
    [.publish 0 2 (namePublish published)]

/-- What is published to `a` is delivered to the subscription to `a`. -/
theorem pattern_subscribe_delivers_iff_exact : ∃ f, fanoutsTo "a" "a" = [f] ∧
    ∃ pre delivered tag post, f.after.buffer 1 = pre ++ (delivered ++ post) ∧
      AppendsDelivery [] delivered f.qos tag f.topic f.payload.message := by
  obtain ⟨f, hf⟩ : ∃ f, fanoutsTo "a" "a" = [f] := List.length_eq_one_iff.mp (by decide +kernel)
  have hshown : ∀ f ∈ fanoutsTo "a" "a", f.topic = "a" ∧ f.before.shuttingDown = false ∧
      1 ∈ f.before.subscriptions ∧
      (f.after.buffer 1).length < f.before.config.slowConsumerBufferBytes ∧
      20 + (utf8 f.topic).length + f.payload.message.length ≤ maxFrameSize := by decide +kernel
  have hmem : f ∈ fanoutsTo "a" "a" := hf ▸ List.mem_singleton_self f
  obtain ⟨htopic, hrunning, hlive, hlength, hfits⟩ := hshown f hmem
  have hparse : SubjectPattern.parse "a" = .ok ⟨"a", [.literal "a"], false⟩ := by decide +kernel
  have hdecode : SubscribePayload.decode (nameSubscribe "a").payload =
      .ok ⟨"a", 0, none, none⟩ := by decide +kernel
  have hack : (subscribedTo "a").2 = .ok ⟨.ack, 1, beBytes 8 1⟩ := by decide +kernel
  obtain ⟨-, hown, -⟩ := pattern_subscribe_delivers_iff wireExternals rfl .default false []
    [.publish 0 2 (namePublish "a")] (.new .default false) rfl 0 (.ofEntries []) 1 1
    (nameSubscribe "a") _ _ _ hdecode hparse hack rfl f hmem (by rw [htopic]; decide +kernel)
    hrunning hlive
  obtain ⟨-, pre, rest, hbuffer, hgains⟩ := hown htopic rfl
  have hroom : (f.before.buffer 1 ++ pre).length < f.before.config.slowConsumerBufferBytes := by
    rw [hbuffer, List.length_append] at hlength
    omega
  obtain ⟨delivered, tag, post, rfl, hdelivered⟩ := hgains hroom hfits
  exact ⟨f, hf, _, delivered, tag, post, hbuffer, hdelivered⟩

/-- A SUBSCRIBE to `a.*` is acknowledged, and what is published to `a.b` does not
reach its connection. -/
theorem wildcard_subscribe_gets_nothing :
    (∃ ack, (subscribedTo "a.*").2 = .ok ack ∧ ack.msgType = .ack) ∧
    (∃ p, SubjectPattern.parse "a.*" = .ok p ∧ p.matches "a.b" = true) ∧
    (fanoutsTo "a.*" "a.b").map (fun f => (f.topic, f.before.buffer 1, f.after.buffer 1)) =
      [("a.b", [], [])] := by
  decide +kernel

end BlipMQ.Net
