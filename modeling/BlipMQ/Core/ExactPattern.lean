import BlipMQ.Core.Handles
import BlipMQ.Core.Origin
import BlipMQ.Core.Targets

/-!
# Broker — patterns without wildcards

A pattern without wildcards is not put on the list that every publish scans.
It is subscribed as the topic it spells, and publishes find it through the
topic map. This module compares the two ways to find it.
-/

namespace BlipMQ.Core

/-! ## Sequences of publishes -/

/-- One call of a publish function; `preResolved` is a handle the caller has kept. -/
structure PublishCall where
  now : Nat
  preResolved : Option ResolvedTopic
  offer : Offer
  ttlOverride : Option Nat
  partitionKey : Option Bytes
  deriving DecidableEq

namespace PublishCall

def action (c : PublishCall) : BrokerAction :=
  .publish c.now c.preResolved c.offer c.ttlOverride c.partitionKey

/-- The handle, if there is one, is what the topic resolves to. -/
def Resolved (c : PublishCall) (b : Broker) : Prop :=
  ∀ r, c.preResolved = some r → b.resolveTopic c.offer.topic = some r

theorem Resolved.act {c : PublishCall} {b : Broker} (h : c.Resolved b) (E : Externals)
    (a : BrokerAction) : c.Resolved (b.act E a) :=
  fun r hr => Broker.resolveTopic_act (h r hr) a

end PublishCall

namespace Broker

def publishAll (E : Externals) (b : Broker) (calls : List PublishCall) : Broker :=
  calls.foldl (fun b c => b.act E c.action) b

/-- What a publish has for a registered subscription whose pattern is matched
against the subject. -/
def byMatching (p : SubjectPattern) (x : Nat) (b : Broker) (c : PublishCall) : List Offer :=
  if !b.shuttingDown && (b.subscriptions.lookup x).isSome && p.matches c.offer.topic then [c.offer]
  else []

/-- The same along a sequence of publishes. -/
def allByMatching (E : Externals) (p : SubjectPattern) (x : Nat) (b : Broker)
    (calls : List PublishCall) : List Offer :=
  emitted (fun b c => b.act E c.action) (byMatching p x) b calls

section Publish

variable {E : Externals} {b : Broker} {x : Nat}

theorem offers_deliver (hx : (b.subscribers.lookup x).isSome) (now : Nat) (o : Offer)
    (ttl : Option Nat) (y : Nat) :
    (servicesOf x (b.deliverServices now o ttl y)).map Service.offer? =
      if y = x then [some o] else [] := by
  by_cases hxy : y = x
  · subst hxy
    obtain ⟨sub, hsub⟩ := Option.isSome_iff_exists.mp hx
    by_cases hmode : sub.mode = .poll
    · simp [deliverServices_poll hsub hmode, servicesOf_singleton, Service.offer?]
    · simp [deliverServices_push hsub hmode, servicesOf_singleton, Service.offer?]
  · rw [if_neg hxy, List.map_eq_nil_iff, List.eq_nil_iff_forall_not_mem]
    intro svc hsvc
    unfold deliverServices at hsvc
    have hmem := mem_servicesOf.mp hsvc
    split at hmem
    · exact absurd hmem List.not_mem_nil
    · split at hmem <;> exact hxy (congrArg Prod.fst (List.mem_singleton.mp hmem)).symm

/-- The loop serves a subscriber once for each time it is listed. -/
theorem offers_fanOut (hx : (b.subscribers.lookup x).isSome) (now : Nat) (o : Offer)
    (ttl : Option Nat) (ids : List Nat) :
    (servicesOf x (emitted (fun b y => (b.deliver E now o ttl y).1)
      (fun b y => b.deliverServices now o ttl y) b ids)).map Service.offer? =
      List.replicate (ids.count x) (some o) := by
  induction ids generalizing b with
  | nil => rfl
  | cons y ids ih =>
    have hstill := ((deliver_serves (E := E) now o ttl y).isSome_iff x).mpr hx
    rw [emitted, servicesOf_append, List.map_append, offers_deliver hx, ih hstill,
      List.count_cons]
    by_cases hxy : y = x <;> simp [hxy, List.replicate_succ]

/-- A publish serves a subscriber once for each time it is a target. -/
theorem offers_publish {c : PublishCall} (hhandles : b.Handles) (hresolved : c.Resolved b)
    (hx : (b.subscribers.lookup x).isSome) :
    (servicesOf x (b.services E c.action)).map Service.offer? =
      List.replicate ((b.targets E c.offer.topic c.partitionKey).count x) (some c.offer) := by
  have hrecord : b.record c.offer.topic c.preResolved = b.record c.offer.topic none := by
    cases hpre : c.preResolved with
    | none => rfl
    | some r => exact record_resolved hhandles (hresolved r hpre)
  change (servicesOf x (b.publishServices E c.now c.preResolved c.offer c.ttlOverride
    c.partitionKey)).map _ = _
  unfold publishServices targets
  by_cases hdown : b.shuttingDown = true
  · simp [hdown]
  · have hstart : ((b.startPublish E (b.record c.offer.topic none) c.offer.walId
        c.partitionKey).subscribers.lookup x).isSome := by
      rwa [(startPublish_same E b _ _ _).subscribers]
    rw [if_neg hdown, if_neg hdown, hrecord]
    exact offers_fanOut hstart ..

end Publish

end Broker

/-! ## Found through the topic map -/

namespace System

/-- Subscription `x` was made for the exact pattern `p`; it may be gone by now. -/
structure Exact (s : System) (p : SubjectPattern) (x : Nat) : Prop where
  sound : s.Sound
  handles : s.broker.Handles
  interest : (s.registrations.lookup x).map Registration.interest = some (.pattern p)
  subscriber : (s.broker.subscribers.lookup x).isSome

section Exact

variable {E : Externals} {s : System} {p : SubjectPattern} {x : Nat}

/-- A publish keeps what is registered, and the subscribers. -/
theorem Exact.publish (h : s.Exact p x) (c : PublishCall) : (s.act E c.action).Exact p x where
  sound := h.sound.act _
  handles := h.handles.act (E := E) c.action
  interest := h.interest
  subscriber := ((Broker.act_serves E rfl).isSome_iff x).mpr h.subscriber

/-- **The topic map finds the subscription when matching would.** -/
theorem Exact.count_targets (h : s.Exact p x) (hexact : p.isExact = true) (c : PublishCall) :
    List.replicate ((s.broker.targets E c.offer.topic c.partitionKey).count x) c.offer =
      s.broker.byMatching p x c := by
  unfold Broker.byMatching
  by_cases hdown : s.broker.shuttingDown = true
  · simp [Broker.targets, hdown]
  have hrunning : s.broker.shuttingDown = false := by simpa using hdown
  cases hhome : s.broker.subscriptions.lookup x with
  | none => simp [Broker.count_gone h.sound.consistent hrunning hhome]
  | some home =>
    have hlive : s.Live x (.pattern p) := by
      refine ⟨AList.lookup_isSome.mp ?_, h.interest⟩
      rw [hhome]
      rfl
    rw [h.sound.count_broadcast hrunning hlive rfl]
    have hdoubles : (Interest.pattern p).doubles c.offer.topic = false := by
      simp [Interest.doubles, Interest.wildcard, hexact]
    by_cases hmatch : p.matches c.offer.topic = true <;>
      simp [hdoubles, hrunning, hmatch, Interest.wants]

/-- Along a sequence of publishes the subscriber gets what matching would give it. -/
theorem Exact.publishAll (h : s.Exact p x) (hexact : p.isExact = true) (calls : List PublishCall)
    (hresolved : ∀ c ∈ calls, c.Resolved s.broker) {sub : Subscriber}
    (hsub : s.broker.subscribers.lookup x = some sub) :
    ∃ svcs, (s.broker.publishAll E calls).subscribers.lookup x = some (sub.serveAll svcs) ∧
      svcs.map Service.offer? = (s.broker.allByMatching E p x calls).map some := by
  induction calls generalizing s sub with
  | nil => exact ⟨[], hsub, rfl⟩
  | cons c calls ih =>
    obtain ⟨hc, hcalls⟩ := List.forall_mem_cons.mp hresolved
    have hserves := Broker.act_serves E (b := s.broker) (a := c.action) rfl
    have hsub' := hserves.subscribers x
    rw [hsub] at hsub'
    obtain ⟨svcs, hlast, hoffers⟩ :=
      ih (s := s.act E c.action) (h.publish c) (fun c' hc' => (hcalls c' hc').act E _) hsub'
    refine ⟨servicesOf x (s.broker.services E c.action) ++ svcs, ?_, ?_⟩
    · rw [Subscriber.serveAll_append]
      exact hlast
    · rw [List.map_append, hoffers, Broker.offers_publish h.handles hc h.subscriber,
        ← List.map_replicate, h.count_targets hexact, ← List.map_append]
      rfl

/-- The subscription that has just been made. -/
theorem exact_subscribed (hsound : s.Sound) (hhandles : s.broker.Handles) {text : String}
    (hparse : SubjectPattern.parse text = .ok p) (clientId : String) (qos : QoSLevel)
    (connId : Option Nat) (mode : DeliveryMode) :
    (s.act E (.subscribePattern clientId text qos connId mode)).Exact p
      s.broker.nextSubscriptionId where
  sound := hsound.act _
  handles := hhandles.act (E := E) (.subscribePattern clientId text qos connId mode)
  interest := by simp [act, newRegistration, hparse]
  subscriber := by
    have hnew : s.broker.newSubscriber (.subscribePattern clientId text qos connId mode) =
        some (.new clientId qos s.broker.config.perSubscriberQueueCapacity mode
          (Interest.pattern p).home) := by
      simp [Broker.newSubscriber, hparse]
    change ((s.broker.act E _).subscribers.lookup _).isSome
    rw [(Broker.act_registers (E := E) hnew).subscribers, AList.lookup_insert]
    rfl

end Exact

end System

/-- **The shortcut for exact patterns agrees with matching.** A pattern without
wildcards spells the one subject it matches. Subscribed in any state of any run
and followed by any publishes, its subscriber gets one delivery for each message
whose subject the pattern matches, in order, and nothing else. -/
theorem exact_pattern_agrees (text : String) (p : SubjectPattern)
    (hparse : SubjectPattern.parse text = .ok p) (hexact : p.isExact = true) :
    p.exactSubject = text ∧ (∀ t, p.matches t = true ↔ t = text) ∧
    ∀ (E : Externals) (config : BrokerConfig) (hasWal : Bool) (acts : List BrokerAction)
      (clientId : String) (qos : QoSLevel) (connId : Option Nat) (mode : DeliveryMode)
      (calls : List PublishCall),
      let b := ((System.new config hasWal).run E acts).broker
      let made := b.subscribePatternInner clientId p qos connId mode
      (∀ c ∈ calls, c.Resolved made.1) →
      ∃ svcs, (made.1.publishAll E calls).subscribers.lookup made.2 =
          some ((Subscriber.new clientId qos b.config.perSubscriberQueueCapacity mode
            ⟨text, none⟩).serveAll svcs) ∧
        svcs.map Service.offer? = (made.1.allByMatching E p made.2 calls).map some := by
  obtain ⟨hraw, -⟩ := SubjectPattern.parse_eq_ok hparse
  have hsubject := SubjectPattern.exactSubject_eq_raw hparse hexact
  rw [hraw] at hsubject
  refine ⟨hsubject, ?_, ?_⟩
  · intro t
    rw [SubjectPattern.matches_iff_of_isExact hparse hexact, hraw]
  · intro E config hasWal acts clientId qos connId mode calls b made hresolved
    have hsound := (System.Sound.new config hasWal).run (E := E) acts
    have hhandles := System.handles_run E config hasWal acts
    have hmade : made = b.subscribeInnerGrouped clientId text qos connId mode none := by
      rw [← hsubject]
      exact if_pos hexact
    have hbroker : (((System.new config hasWal).run E acts).act E
        (.subscribePattern clientId text qos connId mode)).broker = made.1 := by
      simp only [System.act, Broker.act, hparse, made, b]
    have hid : made.2 = b.nextSubscriptionId := by rw [hmade]; rfl
    have hsub : made.1.subscribers.lookup made.2 = some (.new clientId qos
        b.config.perSubscriberQueueCapacity mode ⟨text, none⟩) := by
      rw [hmade]
      exact AList.lookup_insert _
    have hstart := System.exact_subscribed (E := E) hsound hhandles hparse clientId qos connId mode
    have hall := hstart.publishAll (E := E) hexact calls
    rw [hbroker] at hall
    rw [hid] at hsub ⊢
    exact hall hresolved hsub

/-- A message on each of two topics. -/
def twoTopics : List PublishCall :=
  [⟨0, none, ⟨none, "a.b", [1], .atMostOnce⟩, none, none⟩,
    ⟨1, none, ⟨none, "a.c", [2], .atMostOnce⟩, none, none⟩]

/-- The pattern `a.b` gets the message on `a.b`. -/
theorem exact_pattern_agrees_literal :
    let p : SubjectPattern := ⟨"a.b", [.literal "a", .literal "b"], false⟩
    let made := ((System.new .default false).run bareExternals []).broker.subscribePatternInner
      "c" p .atMostOnce none .poll
    p.exactSubject = "a.b" ∧ p.matches "a.c" = false ∧
    ∃ svcs, (made.1.publishAll bareExternals twoTopics).subscribers.lookup made.2 =
        some ((Subscriber.new "c" .atMostOnce 1024 .poll ⟨"a.b", none⟩).serveAll svcs) ∧
      svcs.map Service.offer? = [some ⟨none, "a.b", [1], .atMostOnce⟩] := by
  have h := exact_pattern_agrees "a.b" ⟨"a.b", [.literal "a", .literal "b"], false⟩
    (by decide +kernel) (by decide)
  have hnone : ∀ c ∈ twoTopics, c.preResolved = none := by decide
  obtain ⟨svcs, hsub, hoffers⟩ := h.2.2 bareExternals .default false [] "c" .atMostOnce none .poll
    twoTopics fun c hc r hr => by rw [hnone c hc] at hr; cases hr
  exact ⟨h.1, by decide +kernel, svcs, hsub, hoffers.trans (by decide +kernel)⟩

end BlipMQ.Core
