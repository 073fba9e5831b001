import BlipMQ.Core.Consistency
import BlipMQ.Lib.Machine

/-!
# Broker — what the calls do to one subscriber

Whatever a call does to a subscriber is one of five services: a message is
enqueued or pushed, one is dequeued, one is acked, the queue is ticked. This
module says which services each call performs, in their order, and that
there is nothing else a call does to a subscriber.
-/

namespace BlipMQ.Core

open Wal (WalRecord)

inductive Service where
  | enqueue (now : Nat) (o : Offer) (ttl : Option Nat)
  | push (now : Nat) (o : Offer) (ttl : Option Nat) (sent : Bool)
  | dequeue (now baseDelay : Nat)
  | ack (tag : Nat)
  | tick (now maxRetries : Nat)
  deriving DecidableEq, Repr

namespace Subscriber

/-- A subscriber that has just been registered. -/
def new (clientId : String) (qos : QoSLevel) (capacity : Nat) (mode : DeliveryMode)
    (home : SubscriptionRef) : Subscriber where
  clientId := clientId
  queue := .new qos capacity
  mode := mode
  pushNextTag := 1
  home := home
  offered := []
  acked := []

def serve (sub : Subscriber) : Service → Subscriber
  | .enqueue now o ttl => sub.enqueue now o ttl
  | .push now o ttl sent => sub.push now o ttl sent
  | .dequeue now baseDelay => { sub with queue := (sub.queue.dequeue now baseDelay).1 }
  | .ack tag => { sub with
      queue := (sub.queue.ack tag).1
      acked := sub.acked ++ ((sub.queue.inflight.lookup tag).bind QueueEntry.walId).toList }
  | .tick now maxRetries =>
    { sub with queue := (sub.queue.maintenanceTick now maxRetries).1 }

def serveAll (sub : Subscriber) (svcs : List Service) : Subscriber := svcs.foldl serve sub

/-- Nothing is enqueued for a slot, and nothing is pushed to a subscriber that polls. -/
def Fits (sub : Subscriber) : Service → Prop
  | .enqueue _ _ _ => ∀ slot, sub.mode ≠ .slot slot
  | .push _ _ _ _ => sub.mode ≠ .poll
  | _ => True

@[simp] theorem serveAll_nil (sub : Subscriber) : sub.serveAll [] = sub := rfl

@[simp] theorem serveAll_cons (sub : Subscriber) (svc : Service) (svcs : List Service) :
    sub.serveAll (svc :: svcs) = (sub.serve svc).serveAll svcs := rfl

@[simp] theorem serveAll_append (sub : Subscriber) (svcs svcs' : List Service) :
    sub.serveAll (svcs ++ svcs') = (sub.serveAll svcs).serveAll svcs' :=
  List.foldl_append

@[simp] theorem mode_serve (sub : Subscriber) (svc : Service) :
    (sub.serve svc).mode = sub.mode := by
  cases svc <;> rfl

@[simp] theorem mode_serveAll (sub : Subscriber) (svcs : List Service) :
    (sub.serveAll svcs).mode = sub.mode := by
  induction svcs generalizing sub with
  | nil => rfl
  | cons svc svcs ih => rw [serveAll_cons, ih, mode_serve]

theorem fits_congr {sub sub' : Subscriber} (h : sub'.mode = sub.mode) (svc : Service) :
    sub'.Fits svc ↔ sub.Fits svc := by
  cases svc <;> simp [Fits, h]

/-- The tag of the next push is a `u64`. -/
theorem pushNextTag_lt {sub : Subscriber} (h : sub.pushNextTag < 2 ^ 64)
    (svcs : List Service) : (sub.serveAll svcs).pushNextTag < 2 ^ 64 := by
  induction svcs generalizing sub with
  | nil => exact h
  | cons svc svcs ih =>
    refine ih ?_
    cases svc with
    | push now o ttl sent => exact Nat.mod_lt _ (by decide)
    | enqueue now o ttl => exact h
    | dequeue now baseDelay => exact h
    | ack tag => exact h
    | tick now maxRetries => exact h

end Subscriber

/-- The services of one subscriber among those of all. -/
def servicesOf (x : Nat) (svcs : List (Nat × Service)) : List Service :=
  (svcs.filter (·.1 = x)).map Prod.snd

@[simp] theorem servicesOf_nil (x : Nat) : servicesOf x [] = [] := rfl

@[simp] theorem servicesOf_append (x : Nat) (svcs svcs' : List (Nat × Service)) :
    servicesOf x (svcs ++ svcs') = servicesOf x svcs ++ servicesOf x svcs' := by
  simp [servicesOf]

theorem servicesOf_singleton (x y : Nat) (svc : Service) :
    servicesOf x [(y, svc)] = if x = y then [svc] else [] := by
  by_cases h : x = y
  · simp [servicesOf, h]
  · have hne : ¬ y = x := fun he => h he.symm
    simp [servicesOf, h, hne]

theorem mem_servicesOf {x : Nat} {svcs : List (Nat × Service)} {svc : Service} :
    svc ∈ servicesOf x svcs ↔ (x, svc) ∈ svcs := by
  simp [servicesOf]

namespace Broker

/-! ## The services of each call -/

def deliverServices (b : Broker) (now : Nat) (o : Offer) (ttl : Option Nat) (subId : Nat) :
    List (Nat × Service) :=
  match b.subscribers.lookup subId with
  | none => []
  | some sub =>
    match sub.mode with
    | .poll => [(subId, .enqueue now o ttl)]
    | mode => [(subId, .push now o ttl (b.hasRoom mode))]

def publishServices (E : Externals) (b : Broker) (now : Nat) (preResolved : Option ResolvedTopic)
    (o : Offer) (ttlOverride : Option Nat) (partitionKey : Option Bytes) : List (Nat × Service) :=
  if b.shuttingDown then []
  else
    let record := b.record o.topic preResolved
    let ttl := ttlOverride.or (some b.config.messageTtl)
    emitted (fun b x => (b.deliver E now o ttl x).1) (fun b x => b.deliverServices now o ttl x)
      (b.startPublish E record o.walId partitionKey) (b.snapshot E record o.topic partitionKey)

def pollServices (b : Broker) (now subId : Nat) : List (Nat × Service) :=
  match b.subscriptions.lookup subId, b.subscribers.lookup subId with
  | some _, some _ => [(subId, .dequeue now b.config.retryBaseDelay)]
  | _, _ => []

def ackServices (b : Broker) (subId tag : Nat) : List (Nat × Service) :=
  match b.subscriptions.lookup subId, b.subscribers.lookup subId with
  | some _, some _ => [(subId, .ack tag)]
  | _, _ => []

def tickOneServices (now : Nat) (b : Broker) (e : Sigma fun _ : Nat => SubscriptionRef) :
    List (Nat × Service) :=
  match b.subscribers.lookup e.1 with
  | none => []
  | some _ => [(e.1, .tick now b.config.maxRetries)]

def tickServices (E : Externals) (b : Broker) (now clock : Nat) : List (Nat × Service) :=
  let out := b.tickQueues now
  emitted (tickOne now) (fun s e => tickOneServices now s.1 e) (b, []) b.subscriptions.entries ++
    emitted (publishDeadLetter E clock)
      (fun b letter =>
        b.publishServices E clock none ⟨none, letter.1, letter.2, .atMostOnce⟩ none none)
      out.1 out.2

def redeliverServices (b : Broker) (now : Nat) (o : Offer) (subId : Nat) : List (Nat × Service) :=
  match b.subscribers.lookup subId with
  | none => []
  | some sub =>
    let ttl := some b.config.messageTtl
    match sub.mode with
    | .slot _ => [(subId, .push now o ttl true)]
    | _ => [(subId, .enqueue now o ttl)]

def replayRecordServices (E : Externals) (now : Nat) (cursors : MaxMap (String × String))
    (b : Broker) (r : WalRecord) : List (Nat × Service) :=
  match message? r with
  | none => []
  | some m =>
    match b.topics.lookup m.topic with
    | none => []
    | some topic =>
      let o : Offer := ⟨some r.id, m.topic, m.payload, m.qos⟩
      emitted
        (fun b x => if b.beyondCursor cursors m.topic r.id x then b.redeliver E now o x else b)
        (fun b x =>
          if b.beyondCursor cursors m.topic r.id x then b.redeliverServices now o x else [])
        b topic.subscribers

def replayServices (E : Externals) (now : Nat) (log : Log) (b : Broker)
    (checkpoint : Option CheckpointSnapshot) : List (Nat × Service) :=
  let cursors := replayCursors log checkpoint
  emitted (replayRecord E now cursors) (replayRecordServices E now cursors) b
    (log.iterateFrom (replayStart checkpoint))

def replayToServices (now : Nat) (topic : String) (subId : Nat) (b : Broker) (r : WalRecord) :
    List (Nat × Service) :=
  match message? r, b.subscribers.lookup subId with
  | some m, some sub =>
    if m.topic = topic ∧ sub.mode ≠ .poll then
      b.deliverServices now ⟨some r.id, topic, m.payload, m.qos⟩ (some b.config.messageTtl) subId
    else []
  | _, _ => []

def replayToSubscriberServices (E : Externals) (now : Nat) (log : Log) (b : Broker)
    (subId fromOffset : Nat) : List (Nat × Service) :=
  match b.subscriptions.lookup subId with
  | none => []
  | some subRef =>
    emitted (replayTo E now subRef.topic subId) (replayToServices now subRef.topic subId) b
      (log.iterateFrom (if fromOffset = 0 then 1 else fromOffset))

def services (E : Externals) (b : Broker) : BrokerAction → List (Nat × Service)
  | .publish now preResolved o ttlOverride partitionKey =>
    b.publishServices E now preResolved o ttlOverride partitionKey
  | .poll now subId => b.pollServices now subId
  | .ack subId tag => b.ackServices subId tag
  | .maintenanceTick now clock => b.tickServices E now clock
  | .replayFromWal now log checkpoint => b.replayServices E now log checkpoint
  | .replayToSubscriber now log subId fromOffset =>
    b.replayToSubscriberServices E now log subId fromOffset
  | _ => []

/-! ## There is nothing else -/

/-- From `b` to `b'` the subscribers get the services, each one that fits. -/
structure Serves (b b' : Broker) (svcs : List (Nat × Service)) : Prop where
  subscribers : ∀ x, b'.subscribers.lookup x =
    (b.subscribers.lookup x).map (·.serveAll (servicesOf x svcs))
  fits : ∀ x svc, (x, svc) ∈ svcs → ∃ sub, b.subscribers.lookup x = some sub ∧ sub.Fits svc

namespace Serves

variable {b b' b'' : Broker} {svcs svcs' : List (Nat × Service)}

theorem of_eq (h : b'.subscribers = b.subscribers) : Serves b b' [] :=
  ⟨fun x => by simp [h], fun _ _ hmem => absurd hmem List.not_mem_nil⟩

theorem refl (b : Broker) : Serves b b [] := of_eq rfl

theorem trans (h : Serves b b' svcs) (h' : Serves b' b'' svcs') :
    Serves b b'' (svcs ++ svcs') := by
  refine ⟨?_, ?_⟩
  · intro x
    rw [h'.subscribers, h.subscribers, Option.map_map]
    congr 1
    funext sub
    simp
  · intro x svc hmem
    rcases List.mem_append.mp hmem with hmem | hmem
    · exact h.fits x svc hmem
    · obtain ⟨sub', hx', hfits⟩ := h'.fits x svc hmem
      rw [h.subscribers] at hx'
      obtain ⟨sub, hx, rfl⟩ := Option.map_eq_some_iff.mp hx'
      exact ⟨sub, hx, (Subscriber.fits_congr (Subscriber.mode_serveAll ..) svc).mp hfits⟩

theorem congr_left (h : Serves b' b'' svcs) (hs : b'.subscribers = b.subscribers) :
    Serves b b'' svcs :=
  (of_eq hs).trans h

theorem congr_right (h : Serves b b' svcs) (hs : b''.subscribers = b'.subscribers) :
    Serves b b'' svcs := by
  have htrans := h.trans (of_eq hs)
  rwa [List.append_nil] at htrans

variable {sub : Subscriber} {svc : Service}

theorem of_lookup {x : Nat} (hx : b.subscribers.lookup x = some sub)
    (hs : ∀ y, b'.subscribers.lookup y =
      if y = x then some (sub.serve svc) else b.subscribers.lookup y) (hfits : sub.Fits svc) :
    Serves b b' [(x, svc)] := by
  refine ⟨?_, ?_⟩
  · intro y
    rw [hs, servicesOf_singleton]
    by_cases hy : y = x
    · subst hy
      rw [if_pos rfl, if_pos rfl, hx]
      rfl
    · rw [if_neg hy, if_neg hy]
      simp
  · intro y svc' hmem
    cases List.mem_singleton.mp hmem
    exact ⟨sub, hx, hfits⟩

/-- One subscriber is served. -/
theorem one {x : Nat} (hx : b.subscribers.lookup x = some sub)
    (hs : b'.subscribers = b.subscribers.insert x (sub.serve svc)) (hfits : sub.Fits svc) :
    Serves b b' [(x, svc)] :=
  of_lookup hx (fun y => by rw [hs, lookup_insert_eq]) hfits

/-- The service leaves the subscriber as it is. -/
theorem idle {x : Nat} (hx : b.subscribers.lookup x = some sub) (hsame : sub.serve svc = sub)
    (hfits : sub.Fits svc) : Serves b b [(x, svc)] := by
  refine of_lookup hx (fun y => ?_) hfits
  split
  · rename_i hy
    rw [hsame, hy, hx]
  · rfl

/-- A fold whose steps serve. -/
theorem fold {α : Type*} {f : Broker → α → Broker} {out : Broker → α → List (Nat × Service)}
    (hf : ∀ b a, Serves b (f b a) (out b a)) (b : Broker) (as : List α) :
    Serves b (as.foldl f b) (emitted f out b as) := by
  induction as generalizing b with
  | nil => exact refl b
  | cons a as ih => exact (hf b a).trans (ih (f b a))

/-- Who is served is there, before and after. -/
theorem isSome_iff (h : Serves b b' svcs) (x : Nat) :
    (b'.subscribers.lookup x).isSome ↔ (b.subscribers.lookup x).isSome := by
  rw [h.subscribers, Option.isSome_map]

end Serves

section Calls

variable {E : Externals} {b : Broker} {sub : Subscriber} {x now : Nat} {o : Offer}
  {ttl : Option Nat}

theorem deliverServices_absent (hx : b.subscribers.lookup x = none) :
    b.deliverServices now o ttl x = [] := by
  rw [deliverServices, hx]

theorem deliverServices_poll (hx : b.subscribers.lookup x = some sub) (hmode : sub.mode = .poll) :
    b.deliverServices now o ttl x = [(x, .enqueue now o ttl)] := by
  rw [deliverServices, hx]
  simp only [hmode]

theorem deliverServices_push (hx : b.subscribers.lookup x = some sub) (hmode : sub.mode ≠ .poll) :
    b.deliverServices now o ttl x = [(x, .push now o ttl (b.hasRoom sub.mode))] := by
  rw [deliverServices, hx]
  cases hm : sub.mode with
  | poll => exact absurd hm hmode
  | channel c => simp only [hm]
  | slot n => simp only [hm]

theorem deliver_serves (now : Nat) (o : Offer) (ttl : Option Nat) (x : Nat) :
    Serves b (b.deliver E now o ttl x).1 (b.deliverServices now o ttl x) := by
  cases hx : b.subscribers.lookup x with
  | none =>
    rw [deliver_absent hx, deliverServices_absent hx]
    exact .refl b
  | some sub =>
    by_cases hmode : sub.mode = .poll
    · have hfits : sub.Fits (.enqueue now o ttl) := fun slot => by simp [hmode]
      rw [deliver_poll hx hmode, deliverServices_poll hx hmode]
      exact .one hx rfl hfits
    -- a push is a push whether or not there is room
    · rw [deliver_push hx hmode, deliverServices_push hx hmode]
      cases b.hasRoom sub.mode with
      | true => exact .one hx (send_subscribers ..) hmode
      | false => exact .one hx rfl hmode

theorem fanOut_fst (now : Nat) (o : Offer) (ttl : Option Nat) (ids : List Nat) :
    (b.fanOut E now o ttl ids).1 = ids.foldl (fun b x => (b.deliver E now o ttl x).1) b := by
  induction ids generalizing b with
  | nil => rfl
  | cons x ids ih => exact ih

theorem publishInner_serves (now : Nat) (pre : Option ResolvedTopic) (o : Offer)
    (ttl : Option Nat) (key : Option Bytes) :
    Serves b (b.publishInner E now pre o ttl key) (b.publishServices E now pre o ttl key) := by
  unfold publishServices
  rcases publishInner_cases E b now pre o ttl key with
    ⟨hdown, heq⟩ | ⟨hrunning, b₁, _, _, _, evicted, hfan, -, heq, -⟩
  · rw [heq, hdown]
    exact .refl b
  · have hserves := Serves.fold
      (fun b' x => deliver_serves (E := E) (b := b') now o (ttl.or (some b.config.messageTtl)) x)
      (b.startPublish E (b.record o.topic pre) o.walId key)
      (b.snapshot E (b.record o.topic pre) o.topic key)
    rw [← fanOut_fst, hfan] at hserves
    rw [heq, hrunning]
    exact (hserves.congr_left (startPublish_same ..).subscribers).congr_right
      ((Forgets.foldl unsubscribeOne_forgets _ _).subscribers.trans
        (endPublish_same ..).subscribers)

theorem poll_serves (now x : Nat) : Serves b (b.poll now x).1 (b.pollServices now x) := by
  unfold poll pollServices
  cases hreg : b.subscriptions.lookup x with
  | none => exact .refl b
  | some subRef =>
    cases hx : b.subscribers.lookup x with
    | none => exact .refl b
    | some sub => exact .one hx rfl trivial

/-- A tag that is not in flight is acked in vain. -/
theorem serve_ack_of_none {tag : Nat} (h : sub.queue.inflight.lookup tag = none) :
    sub.serve (.ack tag) = sub := by
  have hsame : sub.queue.inflight.erase tag = sub.queue.inflight := by
    rw [erase_eq_keep]
    refine keep_eq_self fun t e ht => ?_
    have hne : t ≠ tag := by
      rintro rfl
      rw [h] at ht
      cases ht
    simpa using hne
  simp [Subscriber.serve, SubscriberQueue.ack, hsame, h]

theorem ack_serves (x tag : Nat) :
    Serves b (((b.ack x tag).map Prod.fst).getD b) (b.ackServices x tag) := by
  unfold ack ackServices
  cases hreg : b.subscriptions.lookup x with
  | none => exact .refl b
  | some subRef =>
    cases hx : b.subscribers.lookup x with
    | none => exact .refl b
    | some sub =>
      cases he : sub.queue.inflight.lookup tag with
      | none =>
        simp only [SubscriberQueue.ack, he]
        exact .idle hx (serve_ack_of_none he) trivial
      | some e =>
        cases hid : e.walId with
        | none =>
          simp only [SubscriberQueue.ack, he, Option.map_some, hid]
          refine .one hx ?_ trivial
          simp [Subscriber.serve, SubscriberQueue.ack, he, hid]
        | some i =>
          simp only [SubscriberQueue.ack, he, Option.map_some, hid]
          refine .one hx ?_ trivial
          simp [Subscriber.serve, SubscriberQueue.ack, he, hid]

theorem tickQueues_serves (now : Nat) :
    Serves b (b.tickQueues now).1 (emitted (tickOne now) (fun s e => tickOneServices now s.1 e)
      (b, []) b.subscriptions.entries) := by
  have hwalk : ∀ (entries : List (Sigma fun _ : Nat => SubscriptionRef))
      (s : Broker × List (String × Bytes)), Serves s.1 (entries.foldl (tickOne now) s).1
        (emitted (tickOne now) (fun s e => tickOneServices now s.1 e) s entries) := by
    intro entries
    induction entries with
    | nil => exact fun s => .refl s.1
    | cons e entries ih =>
      intro s
      have hone : Serves s.1 (tickOne now s e).1 (tickOneServices now s.1 e) := by
        unfold tickOne tickOneServices
        cases hx : s.1.subscribers.lookup e.1 with
        | none => exact .refl s.1
        | some sub => exact .one hx rfl trivial
      exact hone.trans (ih _)
  exact hwalk b.subscriptions.entries (b, [])

theorem maintenanceTick_serves (now clock : Nat) :
    Serves b (b.maintenanceTick E now clock) (b.tickServices E now clock) :=
  (tickQueues_serves now).trans (.fold (fun _ _ => publishInner_serves ..) _ _)

theorem redeliver_serves (now : Nat) (o : Offer) (x : Nat) :
    Serves b (b.redeliver E now o x) (b.redeliverServices now o x) := by
  unfold redeliver redeliverServices
  cases hx : b.subscribers.lookup x with
  | none => exact .refl b
  | some sub =>
    cases hmode : sub.mode with
    | slot n =>
      have hfits : sub.Fits (.push now o (some b.config.messageTtl) true) := by
        simp [Subscriber.Fits, hmode]
      simp only [hmode]
      exact .one hx (send_subscribers ..) hfits
    | poll =>
      have hfits : sub.Fits (.enqueue now o (some b.config.messageTtl)) := by
        simp [Subscriber.Fits, hmode]
      simp only [hmode]
      exact .one hx rfl hfits
    | channel c =>
      have hfits : sub.Fits (.enqueue now o (some b.config.messageTtl)) := by
        simp [Subscriber.Fits, hmode]
      simp only [hmode]
      exact .one hx rfl hfits

theorem replayRecord_serves (now : Nat) (cursors : MaxMap (String × String)) (r : WalRecord) :
    Serves b (replayRecord E now cursors b r) (replayRecordServices E now cursors b r) := by
  unfold replayRecord replayRecordServices
  cases message? r with
  | none => exact .refl b
  | some m =>
    dsimp only
    cases b.topics.lookup m.topic with
    | none => exact .refl b
    | some topic =>
      refine .fold (fun b x => ?_) b topic.subscribers
      split
      · exact redeliver_serves ..
      · exact .refl b

theorem replay_serves (now : Nat) (log : Log) (checkpoint : Option CheckpointSnapshot) :
    Serves b (b.replayFromWalWithCheckpoint E now log checkpoint)
      (b.replayServices E now log checkpoint) :=
  (Serves.fold (fun _ _ => replayRecord_serves ..) b _).congr_right rfl

theorem replayTo_serves (now : Nat) (topic : String) (x : Nat) (r : WalRecord) :
    Serves b (replayTo E now topic x b r) (replayToServices now topic x b r) := by
  unfold replayTo replayToServices
  cases message? r with
  | none => exact .refl b
  | some m =>
    cases hx : b.subscribers.lookup x with
    | none => exact .refl b
    | some sub =>
      dsimp only
      split
      · exact deliver_serves ..
      · exact .refl b

theorem replayToSubscriber_serves (now : Nat) (log : Log) (x fromOffset : Nat) :
    Serves b (b.replayToSubscriber E now log x fromOffset)
      (b.replayToSubscriberServices E now log x fromOffset) := by
  unfold replayToSubscriber replayToSubscriberServices
  cases b.subscriptions.lookup x with
  | none => exact .refl b
  | some subRef => exact .fold (fun _ _ => replayTo_serves ..) b _

end Calls

/-! ## Every call -/

/-- The subscriber a call brings in, if any; its id is the next one. -/
def newSubscriber (b : Broker) : BrokerAction → Option Subscriber
  | .subscribe clientId topic qos _ mode group =>
    some (.new clientId qos b.config.perSubscriberQueueCapacity mode ⟨topic, group⟩)
  | .subscribePattern clientId pattern qos _ mode =>
    match SubjectPattern.parse pattern with
    | .error _ => none
    | .ok p => some (.new clientId qos b.config.perSubscriberQueueCapacity mode
        (Interest.pattern p).home)
  | _ => none

variable {b : Broker}

/-- A pattern that cannot be parsed is turned away. -/
theorem act_rejected {E : Externals} {clientId pattern : String} {qos : QoSLevel}
    {connId : Option Nat} {mode : DeliveryMode}
    (h : b.newSubscriber (.subscribePattern clientId pattern qos connId mode) = none) :
    b.act E (.subscribePattern clientId pattern qos connId mode) = b := by
  cases hparse : SubjectPattern.parse pattern with
  | error e => simp only [act, hparse]
  | ok p => simp [newSubscriber, hparse] at h

theorem act_serves (E : Externals) {a : BrokerAction} (h : b.newSubscriber a = none) :
    Serves b (b.act E a) (b.services E a) := by
  cases a with
  | subscribe clientId topic qos connId mode group => cases h
  | subscribePattern clientId pattern qos connId mode =>
    exact .of_eq (congrArg Broker.subscribers (act_rejected h))
  | unsubscribeConnection connId =>
    exact .of_eq (unsubscribeConnection_forgets b connId).subscribers
  | publish now pre o ttl key => exact publishInner_serves ..
  | poll now x => exact poll_serves ..
  | ack x tag => exact ack_serves ..
  | maintenanceTick now clock => exact maintenanceTick_serves ..
  | replayFromWal now log checkpoint => exact replay_serves ..
  | replayToSubscriber now log x fromOffset => exact replayToSubscriber_serves ..
  | buffers slots channels => exact .of_eq rfl
  | beginShutdown => exact .of_eq rfl

/-- A call that brings in a subscriber serves nobody. -/
structure Registers (b b' : Broker) (sub : Subscriber) (svcs : List (Nat × Service)) : Prop where
  fresh : ∃ clientId qos capacity mode home, sub = .new clientId qos capacity mode home
  subscribers : b'.subscribers = b.subscribers.insert b.nextSubscriptionId sub
  nextSubscriptionId : b'.nextSubscriptionId = b.nextSubscriptionId + 1
  services : svcs = []

theorem act_registers {E : Externals} {a : BrokerAction} {sub : Subscriber}
    (h : b.newSubscriber a = some sub) : Registers b (b.act E a) sub (b.services E a) := by
  cases a with
  | subscribe clientId topic qos connId mode group =>
    cases h
    exact ⟨⟨_, _, _, _, _, rfl⟩, rfl, rfl, rfl⟩
  | subscribePattern clientId pattern qos connId mode =>
    simp only [newSubscriber] at h
    split at h
    · cases h
    · rename_i p hparse
      cases h
      refine ⟨⟨_, _, _, _, _, rfl⟩, ?_, ?_, rfl⟩
      · simp only [act, hparse, subscribePatternInner, Interest.home]
        split <;> rfl
      · simp only [act, hparse, subscribePatternInner]
        split <;> rfl
  | _ => cases h

end Broker

/-! ## Runs -/

/-- What every service preserves. -/
structure SubscriberRule (P : Subscriber → Prop) : Prop where
  new : ∀ clientId qos capacity mode home, P (.new clientId qos capacity mode home)
  serve : ∀ sub svc, sub.Fits svc → P sub → P (sub.serve svc)

namespace System

/-- The services of a run, in their order. -/
def services (E : Externals) (s : System) (acts : List BrokerAction) : List (Nat × Service) :=
  emitted (Broker.act E) (Broker.services E) s.broker acts

/-- Each subscriber came in new and has got its services. -/
structure Lives (s : System) (svcs : List (Nat × Service)) : Prop where
  life : ∀ x sub, s.broker.subscribers.lookup x = some sub →
    ∃ clientId qos capacity mode home,
      sub = (Subscriber.new clientId qos capacity mode home).serveAll (servicesOf x svcs)
  fits : ∀ x svc, (x, svc) ∈ svcs → ∃ sub, s.broker.subscribers.lookup x = some sub ∧ sub.Fits svc
  old : ∀ x, (s.broker.subscribers.lookup x).isSome → x < s.broker.nextSubscriptionId

section Lives

variable {E : Externals} {s : System} {svcs : List (Nat × Service)} {a : BrokerAction}

theorem Lives.new (config : BrokerConfig) (hasWal : Bool) : (new config hasWal).Lives [] :=
  ⟨fun _ _ hx => absurd hx (by simp [System.new, Broker.new]),
    fun _ _ hmem => absurd hmem List.not_mem_nil,
    fun _ hx => absurd hx (by simp [System.new, Broker.new])⟩

theorem Lives.served (h : s.Lives svcs) (hsound : s.Sound)
    (hnew : s.broker.newSubscriber a = none) :
    (s.act E a).Lives (svcs ++ s.broker.services E a) := by
  have hserves := Broker.act_serves E hnew
  refine ⟨?_, ?_, ?_⟩
  · intro x sub' hx'
    replace hx' := (hserves.subscribers x).symm.trans hx'
    obtain ⟨sub, hx, rfl⟩ := Option.map_eq_some_iff.mp hx'
    obtain ⟨clientId, qos, capacity, mode, home, hlife⟩ := h.life x sub hx
    refine ⟨clientId, qos, capacity, mode, home, ?_⟩
    rw [servicesOf_append, Subscriber.serveAll_append, ← hlife]
  · intro x svc hmem
    have hbefore : ∃ sub, s.broker.subscribers.lookup x = some sub ∧ sub.Fits svc := by
      rcases List.mem_append.mp hmem with hmem | hmem
      · exact h.fits x svc hmem
      · exact hserves.fits x svc hmem
    obtain ⟨sub, hx, hfits⟩ := hbefore
    refine ⟨_, (hserves.subscribers x).trans (by rw [hx]; rfl), ?_⟩
    exact (Subscriber.fits_congr (Subscriber.mode_serveAll ..) svc).mpr hfits
  · intro x hx
    have hnext : s.broker.nextSubscriptionId ≤ (s.act E a).broker.nextSubscriptionId := by
      rcases act_cases E hsound.consistent a with ⟨⟨ids, hd⟩, -⟩ | ⟨reg, -, hadd, -⟩
      · exact Nat.le_of_eq (congrArg Registry.nextId hd).symm
      · exact (Nat.le_succ _).trans (Nat.le_of_eq (congrArg Registry.nextId hadd).symm)
    exact (h.old x ((hserves.isSome_iff x).mp hx)).trans_le hnext

theorem Lives.registered (h : s.Lives svcs) {sub : Subscriber}
    (hnew : s.broker.newSubscriber a = some sub) :
    (s.act E a).Lives (svcs ++ s.broker.services E a) := by
  have hreg := Broker.act_registers (E := E) hnew
  have hlookup : ∀ x, (s.act E a).broker.subscribers.lookup x =
      if x = s.broker.nextSubscriptionId then some sub else s.broker.subscribers.lookup x :=
    fun x => (congrArg (AList.lookup x) hreg.subscribers).trans (lookup_insert_eq ..)
  -- the next id is free, so nothing was served under it
  have hfree : ∀ x, (s.broker.subscribers.lookup x).isSome → x ≠ s.broker.nextSubscriptionId :=
    fun x hx => Nat.ne_of_lt (h.old x hx)
  rw [hreg.services, List.append_nil]
  refine ⟨?_, ?_, ?_⟩
  · intro x sub' hx'
    rw [hlookup] at hx'
    split at hx'
    · rename_i heq
      cases hx'
      obtain ⟨clientId, qos, capacity, mode, home, rfl⟩ := hreg.fresh
      have hnone : servicesOf x svcs = [] := by
        refine List.eq_nil_iff_forall_not_mem.mpr fun svc hmem => ?_
        obtain ⟨sub', hsub', -⟩ := h.fits x svc (mem_servicesOf.mp hmem)
        exact hfree x (by rw [hsub']; rfl) heq
      exact ⟨clientId, qos, capacity, mode, home, by rw [hnone]; rfl⟩
    · exact h.life x sub' hx'
  · intro x svc hmem
    obtain ⟨sub', hx, hfits⟩ := h.fits x svc hmem
    refine ⟨sub', ?_, hfits⟩
    rw [hlookup, if_neg (hfree x (by rw [hx]; rfl)), hx]
  · intro x hx
    have hnext : (s.act E a).broker.nextSubscriptionId = s.broker.nextSubscriptionId + 1 :=
      hreg.nextSubscriptionId
    rw [hlookup] at hx
    split at hx
    · omega
    · have hlt := h.old x hx
      omega

theorem Lives.act (h : s.Lives svcs) (hsound : s.Sound) (a : BrokerAction) :
    (s.act E a).Lives (svcs ++ s.broker.services E a) := by
  cases hnew : s.broker.newSubscriber a with
  | none => exact h.served hsound hnew
  | some sub => exact h.registered hnew

theorem Lives.fit (h : s.Lives svcs) {x : Nat} {sub : Subscriber}
    (hx : s.broker.subscribers.lookup x = some sub) {svc : Service}
    (hmem : svc ∈ servicesOf x svcs) : sub.Fits svc := by
  obtain ⟨sub', hx', hfits⟩ := h.fits x svc (mem_servicesOf.mp hmem)
  rw [hx] at hx'
  cases hx'
  exact hfits

end Lives

/-- **Every subscriber of every run came in new and has got the services of the
run**, each one that fits, and nothing else. -/
theorem lives_run (E : Externals) (config : BrokerConfig) (hasWal : Bool)
    (acts : List BrokerAction) :
    ((System.new config hasWal).run E acts).Lives ((System.new config hasWal).services E acts) := by
  have hgen : ∀ (acts : List BrokerAction) (s : System) svcs, s.Lives svcs → s.Sound →
      (s.run E acts).Lives (svcs ++ s.services E acts) := by
    intro acts
    induction acts with
    | nil =>
      intro s svcs h _
      exact (List.append_nil svcs).symm ▸ h
    | cons a acts ih =>
      intro s svcs h hsound
      have hrest := ih (s.act E a) _ (h.act (E := E) hsound a) (hsound.act a)
      rwa [List.append_assoc] at hrest
  exact hgen acts _ [] (.new config hasWal) (.new config hasWal)

/-- **What every service preserves holds of every subscriber of every run.** -/
theorem subscribers_run {P : Subscriber → Prop} (hP : SubscriberRule P) (E : Externals)
    (config : BrokerConfig) (hasWal : Bool) (acts : List BrokerAction) (x : Nat) (sub : Subscriber)
    (hx : ((System.new config hasWal).run E acts).broker.subscribers.lookup x = some sub) :
    P sub := by
  have hlives := lives_run E config hasWal acts
  obtain ⟨clientId, qos, capacity, mode, home, hlife⟩ := hlives.life x sub hx
  have hgen : ∀ svcs : List Service, (∀ svc ∈ svcs, sub.Fits svc) → ∀ sub' : Subscriber,
      sub'.mode = sub.mode → P sub' → P (sub'.serveAll svcs) := by
    intro svcs
    induction svcs with
    | nil => exact fun _ _ _ h => h
    | cons svc svcs ih =>
      intro hfits sub' hmode h
      have hfit := (Subscriber.fits_congr hmode svc).mpr (hfits svc (by simp))
      exact ih (fun svc' hmem => hfits svc' (by simp [hmem])) _
        ((Subscriber.mode_serve ..).trans hmode) (hP.serve sub' svc hfit h)
  rw [hlife]
  refine hgen _ (fun svc hmem => hlives.fit hx hmem) _ ?_ (hP.new ..)
  rw [hlife, Subscriber.mode_serveAll]

end System

/-! ## What holds of every queue -/

/-- What every operation on a queue preserves; only subscribers that do not poll
are pushed to. -/
structure QueueRule (P : DeliveryMode → SubscriberQueue → Prop) : Prop where
  new : ∀ mode qos capacity, P mode (.new qos capacity)
  enqueue : ∀ mode q now payload qos walId ttl, P mode q →
    P mode (q.enqueue now payload qos walId ttl)
  push : ∀ mode q now tag payload walId ttl, mode ≠ .poll → P mode q →
    P mode (q.registerPushInflight now tag payload walId ttl)
  erase : ∀ mode q tag, P mode q → P mode { q with inflight := q.inflight.erase tag }
  dequeue : ∀ mode q now baseDelay, P mode q → P mode (q.dequeue now baseDelay).1
  tick : ∀ mode q now maxRetries, P mode q → P mode (q.maintenanceTick now maxRetries).1

variable {P : DeliveryMode → SubscriberQueue → Prop}

theorem QueueRule.pushed (hP : QueueRule P) {sub : Subscriber} (hmode : sub.mode ≠ .poll)
    (h : P sub.mode sub.queue) (now : Nat) (o : Offer) (ttl : Option Nat) (sent : Bool) :
    P (sub.push now o ttl sent).mode (sub.push now o ttl sent).queue := by
  have hpush := hP.push _ _ now sub.pushNextTag o.payload o.walId ttl hmode h
  show P sub.mode (if o.qos = .atLeastOnce then _ else _)
  split
  · split
    · exact hpush
    · exact hP.erase _ _ _ hpush
  · exact h

namespace Broker

/-- Every subscriber's queue has `P`. -/
def Queues (P : DeliveryMode → SubscriberQueue → Prop) (b : Broker) : Prop :=
  ∀ x sub, b.subscribers.lookup x = some sub → P sub.mode sub.queue

end Broker

/-- A rule for queues is one for subscribers. -/
theorem QueueRule.subscriberRule (hP : QueueRule P) :
    SubscriberRule fun sub => P sub.mode sub.queue where
  new clientId qos capacity mode home := hP.new mode qos capacity
  serve sub svc hfits h := by
    cases svc with
    | enqueue now o ttl => exact hP.enqueue _ _ _ _ _ _ _ h
    | push now o ttl sent => exact hP.pushed hfits h now o ttl sent
    | dequeue now baseDelay => exact hP.dequeue _ _ _ _ h
    | ack tag => exact hP.erase _ _ _ h
    | tick now maxRetries => exact hP.tick _ _ _ _ h

/-- **A rule for queues holds of every queue of every run.** -/
theorem System.queues_run (hP : QueueRule P) (E : Externals) (config : BrokerConfig)
    (hasWal : Bool) (acts : List BrokerAction) :
    ((System.new config hasWal).run E acts).broker.Queues P :=
  fun x sub hx => subscribers_run hP.subscriberRule E config hasWal acts x sub hx

end BlipMQ.Core
