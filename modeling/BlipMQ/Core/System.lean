import BlipMQ.Core.Replay
import BlipMQ.Core.Tick

/-!
# Broker — maintenance, and the broker as a system

The maintenance tick walks the queues of all subscriptions and then
publishes what was dropped to the dead-letter topics. A run is any sequence
of calls; beside the broker a system keeps, for its own bookkeeping, what
every subscription was made for.
-/

namespace BlipMQ.Core

open Wal (WalRecord)

/-! ## Maintenance -/

namespace Broker

/-- What is published for the messages a queue dropped. The subscribers of a
dead-letter topic lose theirs. -/
def deadLetters (dlqSuffix : Option String) (topic : String)
    (dropped : List (Bytes × DropReason)) : List (String × Bytes) :=
  match dlqSuffix with
  | none => []
  | some suffix =>
    -- a dead letter that is dropped again does not come back
    if suffix.toList.isSuffixOf topic.toList then []
    else dropped.map fun d => (topic ++ suffix, d.1)

/-- The tick of one subscription's queue, with the dead letters so far. -/
def tickOne (now : Nat) (s : Broker × List (String × Bytes))
    (e : Sigma fun _ : Nat => SubscriptionRef) : Broker × List (String × Bytes) :=
  match s.1.subscribers.lookup e.1 with
  | none => s
  | some sub =>
    let out := sub.queue.maintenanceTick now s.1.config.maxRetries
    ({ s.1 with subscribers := s.1.subscribers.insert e.1 { sub with queue := out.1 } },
      s.2 ++ deadLetters s.1.config.dlqSuffix e.2.topic out.2)

/-- The walk over the subscriptions. -/
def tickQueues (b : Broker) (now : Nat) : Broker × List (String × Bytes) :=
  b.subscriptions.entries.foldl (tickOne now) (b, [])

/-- One dead letter, as `publish` sends it. -/
def publishDeadLetter (E : Externals) (clock : Nat) (b : Broker) (letter : String × Bytes) :
    Broker :=
  b.publishInner E clock none ⟨none, letter.1, letter.2, .atMostOnce⟩ none none

/-- `now` is the instant the caller passes, `clock` the one the publishes read. -/
def maintenanceTick (E : Externals) (b : Broker) (now clock : Nat) : Broker :=
  let out := b.tickQueues now
  out.2.foldl (publishDeadLetter E clock) out.1

/-- What holds of the broker and survives the tick of each single queue holds
after the walk over all of them. -/
theorem tickQueues_invariant {P : Broker → Prop} {b : Broker} (h : P b) (now : Nat)
    (hqueue : ∀ (b : Broker) x sub, P b → b.subscribers.lookup x = some sub →
      P { b with subscribers := (b.subscribers.insert x
        { sub with queue := (sub.queue.maintenanceTick now b.config.maxRetries).1 }) }) :
    P (b.tickQueues now).1 := by
  have hstart : P (b, ([] : List (String × Bytes))).1 := h
  refine List.foldlRecOn (motive := fun s => P s.1) b.subscriptions.entries (tickOne now) hstart ?_
  intro s hs e _
  unfold tickOne
  split
  · exact hs
  · rename_i sub hx
    exact hqueue s.1 e.1 sub hs hx

/-- The same for the whole tick, if publishing the dead letters keeps it too. -/
theorem maintenanceTick_invariant {E : Externals} {P : Broker → Prop} {b : Broker} (h : P b)
    (now clock : Nat)
    (hqueue : ∀ (b : Broker) x sub, P b → b.subscribers.lookup x = some sub →
      P { b with subscribers := (b.subscribers.insert x
        { sub with queue := (sub.queue.maintenanceTick now b.config.maxRetries).1 }) })
    (hpublish : ∀ b letter, P b → P (publishDeadLetter E clock b letter)) :
    P (b.maintenanceTick E now clock) :=
  List.foldlRecOn (b.tickQueues now).2 (publishDeadLetter E clock)
    (tickQueues_invariant h now hqueue) fun b hb letter _ => hpublish b letter hb

end Broker

/-! ## Runs -/

/-- What a subscription was made for. -/
inductive Interest where
  | exact (topic : String) (group : Option String)
  | pattern (pattern : SubjectPattern)
  deriving DecidableEq

structure Registration where
  interest : Interest
  connId : Option Nat
  deriving DecidableEq

/-- Every call on a broker. `subscribe` stands for all the calls that name an
exact topic, `subscribePattern` for those that take a pattern, here as the
text it is parsed from. What connections do to their buffers is left to the
environment. -/
inductive BrokerAction where
  | subscribe (clientId topic : String) (qos : QoSLevel) (connId : Option Nat)
      (mode : DeliveryMode) (group : Option String)
  | subscribePattern (clientId pattern : String) (qos : QoSLevel) (connId : Option Nat)
      (mode : DeliveryMode)
  | unsubscribeConnection (connId : Nat)
  | publish (now : Nat) (preResolved : Option ResolvedTopic) (o : Offer)
      (ttlOverride : Option Nat) (partitionKey : Option Bytes)
  | poll (now subId : Nat)
  | ack (subId tag : Nat)
  | maintenanceTick (now clock : Nat)
  | replayFromWal (now : Nat) (log : Log) (checkpoint : Option CheckpointSnapshot)
  | replayToSubscriber (now : Nat) (log : Log) (subId fromOffset : Nat)
  | buffers (slots : AList fun _ : Nat => Bytes) (channels : AList fun _ : Nat => Channel)
  | beginShutdown

/-- The broker after the call. A text that is no pattern is turned away. -/
def Broker.act (E : Externals) (b : Broker) : BrokerAction → Broker
  | .subscribe clientId topic qos connId mode group =>
    (b.subscribeInnerGrouped clientId topic qos connId mode group).1
  | .subscribePattern clientId pattern qos connId mode =>
    match SubjectPattern.parse pattern with
    | .error _ => b
    | .ok p => (b.subscribePatternInner clientId p qos connId mode).1
  | .unsubscribeConnection connId => b.unsubscribeConnection connId
  | .publish now preResolved o ttlOverride partitionKey =>
    b.publishInner E now preResolved o ttlOverride partitionKey
  | .poll now subId => (b.poll now subId).1
  | .ack subId tag => ((b.ack subId tag).map Prod.fst).getD b
  | .maintenanceTick now clock => b.maintenanceTick E now clock
  | .replayFromWal now log checkpoint => b.replayFromWalWithCheckpoint E now log checkpoint
  | .replayToSubscriber now log subId fromOffset =>
    b.replayToSubscriber E now log subId fromOffset
  | .buffers slots channels => { b with slots := slots, channels := channels }
  | .beginShutdown => { b with shuttingDown := true }

structure System where
  broker : Broker
  registrations : AList fun _ : Nat => Registration

namespace System

def new (config : BrokerConfig) (hasWal : Bool) : System :=
  ⟨{ Broker.new config with hasWal := hasWal }, ∅⟩

/-- The registration a call adds, if any; its id is the next one. -/
def newRegistration : BrokerAction → Option Registration
  | .subscribe _ topic _ connId _ group => some ⟨.exact topic group, connId⟩
  | .subscribePattern _ pattern _ connId _ =>
    match SubjectPattern.parse pattern with
    | .error _ => none
    | .ok p => some ⟨.pattern p, connId⟩
  | _ => none

def act (E : Externals) (s : System) (a : BrokerAction) : System where
  broker := s.broker.act E a
  registrations := match newRegistration a with
    | none => s.registrations
    | some r => s.registrations.insert s.broker.nextSubscriptionId r

def run (E : Externals) (s : System) (acts : List BrokerAction) : System := acts.foldl (act E) s

theorem broker_run (E : Externals) (s : System) (acts : List BrokerAction) :
    (s.run E acts).broker = acts.foldl (Broker.act E) s.broker := by
  induction acts generalizing s with
  | nil => rfl
  | cons a acts ih => exact ih (s.act E a)

end System

/-- The await of an append: what other callers do to the broker meanwhile, and
the answer of the log. -/
structure Awaited where
  others : List BrokerAction
  answer : Except Wal.WalError Nat

/-- `publish_durable`: the message is fanned out once its record is on disk. -/
def Broker.publishDurable (E : Externals) (b : Broker) (now : Nat) (topic : String)
    (payload : Bytes) (qos : QoSLevel) (awaited : Awaited) : Broker × Except Wal.WalError Nat :=
  if b.shuttingDown then
    (b, .error (.corruption "write-ahead log not available: broker shutting down"))
  else if !b.hasWal then
    (b, .error (.corruption "write-ahead log not configured for broker"))
  else
    match (WalEntry.message ⟨topic, qos, payload⟩).encode with
    | .error e => (b, .error e)
    | .ok _ =>
      let b := awaited.others.foldl (Broker.act E) b
      match awaited.answer with
      | .error e => (b, .error e)
      | .ok walId => (b.publishWithWalId E now topic payload qos (some walId) none, .ok walId)

/-- Surroundings for runs on concrete inputs. -/
def bareExternals : Externals where
  ahash := fun key => key.length
  crc32 := fun _ => 0
  encoder := fun buf _ _ _ payload => buf ++ payload

end BlipMQ.Core
