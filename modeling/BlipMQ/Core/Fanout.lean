import BlipMQ.Core.Broker

/-!
# Broker — publishing, polling, acknowledging

`publish_inner` takes a snapshot of the subscriptions a message goes to and
then serves them one by one. `poll` hands out what waits in a queue, and
`ack` removes a delivery from flight, raises the cursor of its consumer and
says which entry to journal.
-/

namespace BlipMQ.Core

/-! ## Choosing the members of groups -/

namespace ConsumerGroup

/-- Members in turn; the counter is a `usize` that wraps. -/
def roundRobin (cg : ConsumerGroup) : Option Nat × ConsumerGroup :=
  (cg.members[cg.nextIdx % cg.members.length]?, { cg with nextIdx := (cg.nextIdx + 1) % 2 ^ 64 })

/-- The member one publish goes to: by the hash of a partition key, in turn
without one. A group without members is passed over. -/
def choose (ahash : Bytes → Nat) (partitionKey : Option Bytes) (cg : ConsumerGroup) :
    Option Nat × ConsumerGroup :=
  if cg.members = [] then (none, cg)
  else
    match partitionKey with
    | none => cg.roundRobin
    | some key =>
      -- an empty key counts as none
      if key = [] then cg.roundRobin
      else (cg.members[ahash key % cg.members.length]?, cg)

end ConsumerGroup

namespace Topic

/-- The chosen member of each group. -/
def chosen (topic : Topic) (ahash : Bytes → Nat) (partitionKey : Option Bytes) : List Nat :=
  topic.consumerGroups.entries.filterMap fun e => (e.2.choose ahash partitionKey).1

/-- The topic with the counters moved on. -/
def advance (topic : Topic) (ahash : Bytes → Nat) (partitionKey : Option Bytes) : Topic :=
  { topic with
    consumerGroups := filterMapValues topic.consumerGroups fun cg =>
      some (cg.choose ahash partitionKey).2 }

end Topic

namespace Broker

/-! ## Publishing -/

/-- `resolve_topic`: a handle to keep. -/
def resolveTopic (b : Broker) (name : String) : Option ResolvedTopic :=
  (b.topics.lookup name).map fun topic => ⟨topic.handle⟩

/-- The name under which the record of a publish stands: the record the caller's
handle points to, otherwise the one the registry has. -/
def record (b : Broker) (topicName : String) : Option ResolvedTopic → Option String
  | some resolved => (b.topics.entries.find? fun e => e.2.handle = resolved.handle).map Sigma.fst
  | none => (b.topics.lookup topicName).map fun _ => topicName

/-- The wildcard subscriptions that match; the list is only looked at if its
length is not zero. -/
def wildcardTargets (b : Broker) (topicName : String) : List Nat :=
  if 0 < b.wildcardSubsLen then
    b.wildcardSubs.filterMap fun p =>
      if p.1.matches topicName && (b.subscriptions.lookup p.2).isSome then some p.2 else none
  else []

/-- The subscriptions a publish goes to: those of the topic record, a member of
each of its groups, and the wildcard subscriptions that match. -/
def snapshot (E : Externals) (b : Broker) (record : Option String) (topicName : String)
    (partitionKey : Option Bytes) : List Nat :=
  let exact := match record.bind b.topics.lookup with
    | none => []
    | some topic => topic.subscribers ++ topic.chosen E.ahash partitionKey
  exact ++ b.wildcardTargets topicName

/-- Does the buffer or the channel take another delivery? -/
def hasRoom (b : Broker) : DeliveryMode → Bool
  | .poll => true
  | .slot slot => ((b.slots.lookup slot).getD []).length < b.config.slowConsumerBufferBytes
  | .channel channel =>
    match b.channels.lookup channel with
    | none => false
    | some c => c.connected && c.queue.length < c.capacity

/-- The frame is appended to the buffer, or the handle is sent on the channel. -/
def send (E : Externals) (b : Broker) (mode : DeliveryMode) (handle : DeliveryHandle) : Broker :=
  match mode with
  | .poll => b
  | .slot slot =>
    let buf := (b.slots.lookup slot).getD []
    let buf' := E.encoder buf handle.qos handle.deliveryTag handle.topic handle.payload
    { b with slots := b.slots.insert slot buf' }
  | .channel channel =>
    { b with
      channels := modifyAt b.channels channel fun c => { c with queue := c.queue ++ [handle] } }

/-- The body of the fan-out loop; `true` if a push subscriber had no room. -/
def deliver (E : Externals) (b : Broker) (now : Nat) (o : Offer) (ttl : Option Nat)
    (subId : Nat) : Broker × Bool :=
  match b.subscribers.lookup subId with
  | none => (b, false)
  | some sub =>
    match sub.mode with
    | .poll => ({ b with subscribers := b.subscribers.insert subId (sub.enqueue now o ttl) }, false)
    | mode =>
      -- the tag is taken whether or not there is room
      let room := b.hasRoom mode
      let b := { b with subscribers := b.subscribers.insert subId (sub.push now o ttl room) }
      if room then (b.send E mode ⟨subId, o.topic, o.payload, o.qos, sub.wireTag o⟩, false)
      else (b, true)

section Deliver

variable {E : Externals} {b : Broker} {sub : Subscriber} {x now : Nat} {o : Offer}
  {ttl : Option Nat}

theorem deliver_absent (hx : b.subscribers.lookup x = none) :
    b.deliver E now o ttl x = (b, false) := by
  rw [deliver, hx]

theorem deliver_poll (hx : b.subscribers.lookup x = some sub) (hmode : sub.mode = .poll) :
    b.deliver E now o ttl x =
      ({ b with subscribers := b.subscribers.insert x (sub.enqueue now o ttl) }, false) := by
  rw [deliver, hx]
  simp only [hmode]

theorem deliver_push (hx : b.subscribers.lookup x = some sub) (hmode : sub.mode ≠ .poll) :
    b.deliver E now o ttl x =
      if b.hasRoom sub.mode then
        (send E { b with subscribers := b.subscribers.insert x (sub.push now o ttl true) }
          sub.mode ⟨x, o.topic, o.payload, o.qos, sub.wireTag o⟩, false)
      else ({ b with subscribers := b.subscribers.insert x (sub.push now o ttl false) }, true) := by
  rw [deliver, hx]
  cases hm : sub.mode with
  | poll => exact absurd hm hmode
  | channel c => cases hroom : b.hasRoom (.channel c) <;> simp [hm, hroom]
  | slot n => cases hroom : b.hasRoom (.slot n) <;> simp [hm, hroom]

/-- What waits in a slot to be written out. -/
def buffer (b : Broker) (slot : Nat) : Bytes := (b.slots.lookup slot).getD []

/-- A push to a subscriber whose connection has room: the encoder gets the buffer. -/
theorem deliver_slot (hx : b.subscribers.lookup x = some sub) {slot : Nat}
    (hmode : sub.mode = .slot slot) (hroom : b.hasRoom (.slot slot) = true) :
    b.deliver E now o ttl x =
      ({ b with
        subscribers := b.subscribers.insert x (sub.push now o ttl true)
        slots := b.slots.insert slot
          (E.encoder (b.buffer slot) o.qos (sub.wireTag o) o.topic o.payload) }, false) := by
  rw [deliver_push hx (by simp [hmode]), hmode, if_pos hroom]
  rfl

/-- It counts as delivered and is tracked at QoS 1. -/
theorem served_of_slot (hx : b.subscribers.lookup x = some sub) {slot : Nat}
    (hmode : sub.mode = .slot slot) (hroom : b.hasRoom (.slot slot) = true) (now : Nat) (o : Offer)
    (ttl : Option Nat) :
    let out := b.deliver E now o ttl x
    out.2 = false ∧ out.1.subscribers.lookup x = some (sub.push now o ttl true) ∧
      out.1.buffer slot = E.encoder (b.buffer slot) o.qos (sub.wireTag o) o.topic o.payload := by
  rw [deliver_slot hx hmode hroom]
  refine ⟨rfl, AList.lookup_insert _, ?_⟩
  rw [buffer, AList.lookup_insert]
  rfl

theorem buffer_deliver (slot : Nat) :
    (b.deliver E now o ttl x).1.buffer slot =
      match b.subscribers.lookup x with
      | none => b.buffer slot
      | some sub =>
        if sub.mode = .slot slot ∧ b.hasRoom (.slot slot) = true then
          E.encoder (b.buffer slot) o.qos (sub.wireTag o) o.topic o.payload
        else b.buffer slot := by
  cases hx : b.subscribers.lookup x with
  | none => rw [deliver_absent hx]
  | some sub =>
    dsimp only
    -- only a subscriber on this very slot can change it
    have hother : ∀ mode : DeliveryMode, mode ≠ .slot slot →
        (if mode = .slot slot ∧ b.hasRoom (.slot slot) = true then
          E.encoder (b.buffer slot) o.qos (sub.wireTag o) o.topic o.payload
        else b.buffer slot) = b.buffer slot := fun mode hne => if_neg fun h => hne h.1
    cases hmode : sub.mode with
    | poll =>
      rw [deliver_poll hx hmode, hother _ (by simp)]
      rfl
    | channel c =>
      rw [deliver_push hx (by simp [hmode]), hmode, hother _ (by simp)]
      split <;> rfl
    | slot n =>
      rw [deliver_push hx (by simp [hmode]), hmode]
      by_cases hn : n = slot
      · subst hn
        cases hroom : b.hasRoom (.slot n) with
        | true =>
          rw [if_pos rfl, if_pos ⟨rfl, rfl⟩]
          show ((b.slots.insert n _).lookup n).getD [] = _
          rw [AList.lookup_insert]
          rfl
        | false =>
          rw [if_neg Bool.false_ne_true, if_neg (by simp)]
          rfl
      · rw [hother _ (by simp [hn])]
        split
        · show ((b.slots.insert n _).lookup slot).getD [] = _
          rw [AList.lookup_insert_ne (Ne.symm hn)]
          rfl
        · rfl

end Deliver

/-- The fan-out loop, with the subscriptions that had no room. -/
def fanOut (E : Externals) (b : Broker) (now : Nat) (o : Offer) (ttl : Option Nat) :
    List Nat → Broker × List Nat
  | [] => (b, [])
  | subId :: rest =>
    let delivered := b.deliver E now o ttl subId
    let out := fanOut E delivered.1 now o ttl rest
    (out.1, if delivered.2 then subId :: out.2 else out.2)

/-- A change of the topic record, if there is one. -/
def modifyTopic (b : Broker) (record : Option String) (f : Topic → Topic) : Broker :=
  match record with
  | none => b
  | some name => { b with topics := modifyAt b.topics name f }

/-- What is counted when a publish starts, and the counters of the groups. -/
def startPublish (E : Externals) (b : Broker) (record : Option String) (walId : Option Nat)
    (partitionKey : Option Bytes) : Broker :=
  let b := { b with
    publishCount := b.publishCount + 1
    maxWalIdObserved := max b.maxWalIdObserved (walId.getD 0)
    messagesPublishedTotal := b.messagesPublishedTotal + 1 }
  b.modifyTopic record fun t =>
    { t.advance E.ahash partitionKey with publishedTotal := t.publishedTotal + 1 }

/-- What is counted when the fan-out is through. -/
def endPublish (b : Broker) (record : Option String) (delivered dropped : Nat) : Broker :=
  let b := { b with
    pushDroppedTotal := b.pushDroppedTotal + dropped
    messagesDeliveredTotal := b.messagesDeliveredTotal + delivered }
  b.modifyTopic record fun t => { t with deliveredTotal := t.deliveredTotal + delivered }

/-- Every publish comes down to this; `preResolved` is a handle the caller has
kept. A wrong handle would count, and fan out, on another record. -/
def publishInner (E : Externals) (b : Broker) (now : Nat) (preResolved : Option ResolvedTopic)
    (o : Offer) (ttlOverride : Option Nat) (partitionKey : Option Bytes) : Broker :=
  if b.shuttingDown then b
  else
    let record := b.record o.topic preResolved
    let ids := b.snapshot E record o.topic partitionKey
    let out := (b.startPublish E record o.walId partitionKey).fanOut E now o
      (ttlOverride.or (some b.config.messageTtl)) ids
    let b := out.1.endPublish record (ids.length - out.2.length) out.2.length
    -- after the loop, so that no topic lock is held across an unsubscribe
    match b.config.slowConsumerPolicy with
    | .dropNewest => b
    | .dropSubscription => out.2.foldl unsubscribeOne b

/-- The calls that publish; all come down to `publishInner`. -/
def publishWithWalId (E : Externals) (b : Broker) (now : Nat) (topic : String) (payload : Bytes)
    (qos : QoSLevel) (walId ttlOverride : Option Nat) : Broker :=
  b.publishInner E now none ⟨walId, topic, payload, qos⟩ ttlOverride none

def publish (E : Externals) (b : Broker) (now : Nat) (topic : String) (payload : Bytes)
    (qos : QoSLevel) : Broker :=
  b.publishWithWalId E now topic payload qos none none

def publishWithTtl (E : Externals) (b : Broker) (now : Nat) (topic : String) (payload : Bytes)
    (qos : QoSLevel) (ttl : Option Nat) : Broker :=
  b.publishWithWalId E now topic payload qos none ttl

def publishWithKey (E : Externals) (b : Broker) (now : Nat) (topic : String) (payload : Bytes)
    (qos : QoSLevel) (ttl : Option Nat) (partitionKey : Option Bytes) : Broker :=
  b.publishInner E now none ⟨none, topic, payload, qos⟩ ttl partitionKey

def publishResolved (E : Externals) (b : Broker) (now : Nat) (name : String)
    (resolved : ResolvedTopic) (payload : Bytes) (qos : QoSLevel) : Broker :=
  b.publishInner E now (some resolved) ⟨none, name, payload, qos⟩ none none

def publishResolvedWithTtl (E : Externals) (b : Broker) (now : Nat) (name : String)
    (resolved : ResolvedTopic) (payload : Bytes) (qos : QoSLevel) (ttl : Option Nat) : Broker :=
  b.publishInner E now (some resolved) ⟨none, name, payload, qos⟩ ttl none

def publishResolvedWithOptions (E : Externals) (b : Broker) (now : Nat) (name : String)
    (resolved : ResolvedTopic) (payload : Bytes) (qos : QoSLevel) (ttl : Option Nat)
    (partitionKey : Option Bytes) : Broker :=
  b.publishInner E now (some resolved) ⟨none, name, payload, qos⟩ ttl partitionKey

/-! ## Polling and acknowledging -/

structure PolledMessage where
  subscriptionId : Nat
  topic : String
  payload : Bytes
  qos : QoSLevel
  deliveryTag : Option Nat
  deriving DecidableEq, Repr

def poll (b : Broker) (now subId : Nat) : Broker × Option PolledMessage :=
  match b.subscriptions.lookup subId, b.subscribers.lookup subId with
  | some subRef, some sub =>
    let out := sub.queue.dequeue now b.config.retryBaseDelay
    ({ b with subscribers := b.subscribers.insert subId { sub with queue := out.1 } },
      out.2.map fun d => ⟨subId, subRef.topic, d.1.payload, d.1.qos, d.2⟩)
  | _, _ => (b, none)

/-- Under which name a consumer's acks are kept: all members of a group share one. -/
def cursorId (clientId : String) : Option String → String
  | some g => "group:" ++ g
  | none => clientId

/-- `None` where the source returns `false`; otherwise the broker and, for a
message from the log, the entry of this ack. -/
def ack (b : Broker) (subId tag : Nat) : Option (Broker × Option WalAckRecord) :=
  match b.subscriptions.lookup subId, b.subscribers.lookup subId with
  | some subRef, some sub =>
    match sub.queue.ack tag with
    | (_, none) => none
    | (queue, some none) =>
      some ({ b with subscribers := b.subscribers.insert subId { sub with queue := queue } }, none)
    | (queue, some (some walId)) =>
      let cursorId := cursorId sub.clientId subRef.group
      some ({ b with
          subscribers := b.subscribers.insert subId
            { sub with queue := queue, acked := sub.acked ++ [walId] }
          ackCursors := b.ackCursors.raise (cursorId, subRef.topic) walId },
        some ⟨cursorId, subRef.topic, walId⟩)
  | _, _ => none

end Broker

end BlipMQ.Core
