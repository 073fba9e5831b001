import BlipMQ.Core.Queue
import BlipMQ.Core.Subject

/-!
# Broker — subscriptions, fan-out, acknowledgement

The registries of the broker and the operations on them. A sharded map is
one map here. What the source reaches through `Arc` pointers stands in
maps of its own: `subscribers` by subscription id, `slots` and `channels`
by the number of the connection's slot or channel. A topic record carries
the number of its allocation, which is what a resolved handle points to.
The order of a hash map's values is the order of insertion. Counters are
their totals; latency samples are left out.

Each call is one step. `now` is the instant of the call.
-/

namespace BlipMQ.Core

/-- What the broker calls and does not define: the hash of the `ahash` crate,
the checksum of `crc32fast`, and the encoder of DELIVER frames that the
network layer passes in, which appends to a buffer. -/
structure Externals where
  ahash : Bytes → Nat
  crc32 : Bytes → UInt32
  encoder : Bytes → QoSLevel → Nat → String → Bytes → Bytes

/-- The encoder only adds to the buffer it is given. -/
def Externals.Appends (E : Externals) : Prop :=
  ∀ buf qos tag topic payload,
    E.encoder buf qos tag topic payload = buf ++ E.encoder [] qos tag topic payload

inductive SlowConsumerPolicy where
  | dropNewest
  | dropSubscription
  deriving DecidableEq, Repr

structure BrokerConfig where
  messageTtl : Nat
  perSubscriberQueueCapacity : Nat
  maxRetries : Nat
  retryBaseDelay : Nat
  slowConsumerPolicy : SlowConsumerPolicy
  slowConsumerBufferBytes : Nat
  dlqSuffix : Option String
  deriving DecidableEq, Repr

def BrokerConfig.default : BrokerConfig where
  messageTtl := 60 * 10 ^ 9
  perSubscriberQueueCapacity := 1024
  maxRetries := 3
  retryBaseDelay := 50 * 10 ^ 6
  slowConsumerPolicy := .dropNewest
  slowConsumerBufferBytes := 16 * 1024 * 1024
  dlqSuffix := some ".dlq"

/-! ## Subscribers -/

/-- How a subscriber is served: by `poll`, over a channel, or through the
shared buffer of its connection. -/
inductive DeliveryMode where
  | poll
  | channel (channel : Nat)
  | slot (slot : Nat)
  deriving DecidableEq, Repr

/-- Where a subscription is registered. -/
structure SubscriptionRef where
  topic : String
  group : Option String
  deriving DecidableEq, Repr

/-- A message offered to a subscriber, with the QoS it was published at. -/
structure Offer where
  walId : Option Nat
  topic : String
  payload : Bytes
  qos : QoSLevel
  deriving DecidableEq, Repr

/-- `home`, `offered` and `acked` are bookkeeping no operation reads: the
registration, every message offered to the subscriber, and the WAL ids it
has acked. -/
structure Subscriber where
  clientId : String
  queue : SubscriberQueue
  mode : DeliveryMode
  pushNextTag : Nat
  home : SubscriptionRef
  offered : List Offer
  acked : List Nat

namespace Subscriber

/-- The poll path. -/
def enqueue (sub : Subscriber) (now : Nat) (o : Offer) (ttl : Option Nat) : Subscriber :=
  { sub with
    queue := sub.queue.enqueue now o.payload o.qos o.walId ttl
    offered := sub.offered ++ [o] }

/-- Both push paths: a tag is taken, a QoS1 message is registered as in flight
and, if it could not be sent, taken back. -/
def push (sub : Subscriber) (now : Nat) (o : Offer) (ttl : Option Nat) (sent : Bool) :
    Subscriber :=
  let tag := sub.pushNextTag
  let registered := sub.queue.registerPushInflight now tag o.payload o.walId ttl
  { sub with
    pushNextTag := (tag + 1) % 2 ^ 64
    queue :=
      if o.qos = .atLeastOnce then
        if sent then registered else registered.cancelPushInflight tag
      else sub.queue
    offered := sub.offered ++ [o] }

/-- The tag on the wire: 0 for a QoS0 delivery. -/
def wireTag (sub : Subscriber) (o : Offer) : Nat :=
  if o.qos = .atLeastOnce then sub.pushNextTag else 0

end Subscriber

/-! ## The broker -/

structure ConsumerGroup where
  members : List Nat
  nextIdx : Nat
  deriving DecidableEq, Repr

/-- A handle to a topic record that a caller keeps, an `Arc<Topic>`. -/
structure ResolvedTopic where
  handle : Nat
  deriving DecidableEq, Repr

structure Topic where
  handle : Nat
  subscribers : List Nat
  consumerGroups : AList fun _ : String => ConsumerGroup
  publishedTotal : Nat
  deliveredTotal : Nat

def Topic.new (handle : Nat) : Topic := ⟨handle, [], ∅, 0, 0⟩

structure DeliveryHandle where
  subscriptionId : Nat
  topic : String
  payload : Bytes
  qos : QoSLevel
  deliveryTag : Nat
  deriving DecidableEq, Repr

/-- A bounded channel to a connection's writer task. -/
structure Channel where
  capacity : Nat
  connected : Bool
  queue : List DeliveryHandle
  deriving DecidableEq, Repr

/-- `topicsCreated` numbers the topic records. The number of the next subscription does
not wrap here as the `u64` of the source does after `2 ^ 64` of them. -/
structure Broker where
  config : BrokerConfig
  topics : AList fun _ : String => Topic
  topicsCreated : Nat
  subscriptions : AList fun _ : Nat => SubscriptionRef
  connectionSubs : AList fun _ : Nat => List Nat
  nextSubscriptionId : Nat
  hasWal : Bool
  shuttingDown : Bool
  messagesPublishedTotal : Nat
  messagesDeliveredTotal : Nat
  pushDroppedTotal : Nat
  maxWalIdObserved : Nat
  ackCursors : MaxMap (String × String)
  publishCount : Nat
  wildcardSubs : List (SubjectPattern × Nat)
  wildcardSubsLen : Nat
  subscribers : AList fun _ : Nat => Subscriber
  slots : AList fun _ : Nat => Bytes
  channels : AList fun _ : Nat => Channel

namespace Broker

/-- `new_with_wal`. -/
def new (config : BrokerConfig) : Broker where
  config := config
  topics := ∅
  topicsCreated := 0
  subscriptions := ∅
  connectionSubs := ∅
  nextSubscriptionId := 1
  hasWal := true
  shuttingDown := false
  messagesPublishedTotal := 0
  messagesDeliveredTotal := 0
  pushDroppedTotal := 0
  maxWalIdObserved := 0
  ackCursors := ∅
  publishCount := 0
  wildcardSubs := []
  wildcardSubsLen := 0
  subscribers := ∅
  slots := ∅
  channels := ∅

/-- A broker without a log. -/
def newInMemory (config : BrokerConfig) : Broker := { new config with hasWal := false }

end Broker

/-! ## Subscribing -/

/-- The topic with one more subscriber, in the broadcast map or in a group. -/
def Topic.add (topic : Topic) (subId : Nat) : Option String → Topic
  | none => { topic with subscribers := topic.subscribers ++ [subId] }
  | some g =>
    let cg := (topic.consumerGroups.lookup g).getD ⟨[], 0⟩
    { topic with consumerGroups :=
        topic.consumerGroups.insert g { cg with members := cg.members ++ [subId] } }

def Topic.remove (topic : Topic) (subId : Nat) : Option String → Topic
  | none => { topic with subscribers := topic.subscribers.filter (· ≠ subId) }
  | some g => { topic with consumerGroups := modifyAt topic.consumerGroups g fun cg =>
      { cg with members := cg.members.filter (· ≠ subId) } }

namespace Broker

/-- `get_or_insert`: the record of the topic, a new one if there is none. -/
def topicOrNew (b : Broker) (topic : String) : Topic :=
  (b.topics.lookup topic).getD (.new b.topicsCreated)

def subscribeInnerGrouped (b : Broker) (clientId topic : String) (qos : QoSLevel)
    (connId : Option Nat) (mode : DeliveryMode) (group : Option String) : Broker × Nat :=
  let subscriber : Subscriber := {
    clientId := clientId
    queue := .new qos b.config.perSubscriberQueueCapacity
    mode := mode
    pushNextTag := 1
    home := ⟨topic, group⟩
    offered := []
    acked := [] }
  let subId := b.nextSubscriptionId
  ({ b with
      nextSubscriptionId := subId + 1
      topics := b.topics.insert topic ((b.topicOrNew topic).add subId group)
      topicsCreated :=
        if (b.topics.lookup topic).isSome then b.topicsCreated else b.topicsCreated + 1
      subscriptions := b.subscriptions.insert subId ⟨topic, group⟩
      subscribers := b.subscribers.insert subId subscriber
      connectionSubs := match connId with
        | none => b.connectionSubs
        | some c => b.connectionSubs.insert c ((b.connectionSubs.lookup c).getD [] ++ [subId]) },
    subId)

/-- Poll mode, without a connection. -/
def subscribe (b : Broker) (clientId topic : String) (qos : QoSLevel) : Broker × Nat :=
  b.subscribeInnerGrouped clientId topic qos none .poll none

def subscribeWithConn (b : Broker) (clientId topic : String) (qos : QoSLevel) (connId : Nat)
    (channel : Nat) : Broker × Nat :=
  b.subscribeInnerGrouped clientId topic qos (some connId) (.channel channel) none

def subscribeWithSlot (b : Broker) (clientId topic : String) (qos : QoSLevel) (connId : Nat)
    (slot : Nat) : Broker × Nat :=
  b.subscribeInnerGrouped clientId topic qos (some connId) (.slot slot) none

def subscribeWithSlotInGroup (b : Broker) (clientId topic : String) (qos : QoSLevel)
    (connId : Nat) (slot : Nat) (group : String) : Broker × Nat :=
  b.subscribeInnerGrouped clientId topic qos (some connId) (.slot slot) (some group)

def subscribeInGroup (b : Broker) (clientId topic : String) (qos : QoSLevel) (group : String) :
    Broker × Nat :=
  b.subscribeInnerGrouped clientId topic qos none .poll (some group)

/-- A pattern with wildcards is registered under its own text as the topic and
listed for the scan of every publish; an exact one is a plain topic. -/
def subscribePatternInner (b : Broker) (clientId : String) (pattern : SubjectPattern)
    (qos : QoSLevel) (connId : Option Nat) (mode : DeliveryMode) : Broker × Nat :=
  if pattern.isExact then
    b.subscribeInnerGrouped clientId pattern.exactSubject qos connId mode none
  else
    -- a synthetic topic, so that it is unsubscribed like any other
    let registered := b.subscribeInnerGrouped clientId pattern.raw qos connId mode none
    let wcs := registered.1.wildcardSubs ++ [(pattern, registered.2)]
    ({ registered.1 with wildcardSubs := wcs, wildcardSubsLen := wcs.length }, registered.2)

def subscribePattern (b : Broker) (clientId : String) (pattern : SubjectPattern)
    (qos : QoSLevel) : Broker × Nat :=
  b.subscribePatternInner clientId pattern qos none .poll

def subscribePatternWithSlot (b : Broker) (clientId : String) (pattern : SubjectPattern)
    (qos : QoSLevel) (connId slot : Nat) : Broker × Nat :=
  b.subscribePatternInner clientId pattern qos (some connId) (.slot slot)

/-! ## Unsubscribing -/

/-- The removal from the topic the subscription was registered under. -/
def removeFromTopic (b : Broker) (subId : Nat) (subRef : SubscriptionRef) : Broker :=
  { b with topics := modifyAt b.topics subRef.topic fun t => t.remove subId subRef.group }

/-- The wildcard entries of subscriptions that are gone. -/
def removeWildcards (b : Broker) (removed : List Nat) : Broker :=
  let wcs := b.wildcardSubs.filter fun p => p.2 ∉ removed
  { b with wildcardSubs := wcs, wildcardSubsLen := wcs.length }

def unsubscribeConnection (b : Broker) (connId : Nat) : Broker :=
  let subIds := (b.connectionSubs.lookup connId).getD []
  let removed := subIds.filterMap fun sid => (b.subscriptions.lookup sid).map (sid, ·)
  let b := { b with
    connectionSubs := b.connectionSubs.erase connId
    subscriptions := subIds.foldl (fun subs sid => subs.erase sid) b.subscriptions }
  let b := removed.foldl (fun b p => b.removeFromTopic p.1 p.2) b
  if removed = [] then b else b.removeWildcards (removed.map Prod.fst)

def unsubscribeOne (b : Broker) (subId : Nat) : Broker :=
  match b.subscriptions.lookup subId with
  | none => b
  | some subRef =>
    let b := { b with subscriptions := b.subscriptions.erase subId }
    let b := b.removeFromTopic subId subRef
    let b := { b with
      connectionSubs := filterMapValues b.connectionSubs fun subs =>
        let subs := subs.filter (· ≠ subId)
        if subs = [] then none else some subs }
    b.removeWildcards [subId]

end Broker

end BlipMQ.Core
