import BlipMQ.Core.Replay
import BlipMQ.Lib.Crc32
import BlipMQ.Lib.Run
import BlipMQ.Wal.Writer

/-!
# Daemon — a process and its log

One run of the daemon: the broker, the log, the tasks that are under way,
and the checkpoint file. `publish_durable` awaits its append, so the record
is in the log one step before the fan-out; the journaling of an ack is a
task of its own that appends some time later. Every ten seconds the
checkpoint task writes the snapshot of that moment and then compacts below
the snapshot of a later one.

What connections do to the buffers is left to the environment. `acks` is
bookkeeping no step reads: every ack of a logged message in this process.
-/

namespace BlipMQ.Daemon

open BlipMQ.Core
open Wal (IoResult)

/-- A `publish_durable` whose append has been answered. -/
structure Publication where
  walId : Nat
  message : WalMessageRecord
  deriving DecidableEq, Repr

/-- Where the checkpoint task stands in its round. -/
inductive CheckpointTask where
  | waiting
  | written
  deriving DecidableEq, Repr

structure State where
  broker : Broker
  log : Log
  publishing : List Publication
  journaling : List WalAckRecord
  task : CheckpointTask
  checkpoint : Option Bytes
  acks : List WalAckRecord

inductive Action where
  /-- Any of the `subscribe` calls for an exact topic. -/
  | subscribe (clientId topic : String) (qos : QoSLevel) (connId : Option Nat)
      (mode : DeliveryMode) (group : Option String)
  | subscribePattern (clientId : String) (pattern : SubjectPattern) (qos : QoSLevel)
      (connId : Option Nat) (mode : DeliveryMode)
  | unsubscribeConnection (connId : Nat)
  /-- `publish_durable` up to the answer of its append. -/
  | append (message : WalMessageRecord) (roll : Bool)
  /-- `publish_durable` whose request finds the channel full or the writer gone. -/
  | appendRefused (message : WalMessageRecord)
  /-- The fan-out of the `i`-th answered publish. -/
  | fanOut (i now : Nat)
  | poll (subId now : Nat)
  | ack (subId tag : Nat)
  /-- The append of the `i`-th journaling task. -/
  | journal (i : Nat) (roll : Bool)
  /-- The same with an append that is refused; nobody tries again. -/
  | journalRefused (i : Nat)
  /-- `write_checkpoint_to`. -/
  | writeCheckpoint (result : IoResult)
  /-- `compact_below`; at most `limit` removals succeed. -/
  | compactBelow (limit : Nat)
  /-- Writer tasks take what is in the buffers, connections come and go. -/
  | buffers (slots : AList fun _ : Nat => Bytes) (channels : AList fun _ : Nat => Channel)
  | beginShutdown

/-- The calls that make a subscription. -/
def Action.subscribes : Action → Bool
  | .subscribe .. | .subscribePattern .. => true
  | _ => false

/-! ## The steps -/

/-- `publish_durable`: encode, then `append_durable`, whose `build_request`
takes an id before it looks at the length. -/
def stepAppend (s : State) (message : WalMessageRecord) (roll : Bool) : Option State :=
  if s.broker.shuttingDown then some s
  else
    match (WalEntry.message message).encode with
    | .error _ => some s
    | .ok payload =>
      -- too long for a record: an error, but the id is gone
      if 2 ^ 32 ≤ payload.length then s.log.skipId.map fun log => { s with log := log }
      else (s.log.append roll payload).map fun log => { s with
        log := log
        publishing := s.publishing ++ [⟨s.log.nextId, message⟩] }

/-- `send_request` fails after `build_request` has taken the id. -/
def stepAppendRefused (s : State) (message : WalMessageRecord) : Option State :=
  if s.broker.shuttingDown then some s
  else
    match (WalEntry.message message).encode with
    | .error _ => some s
    | .ok _ => s.log.skipId.map fun log => { s with log := log }

/-- What a publication offers its subscribers. -/
def Publication.offer (p : Publication) : Offer :=
  ⟨some p.walId, p.message.topic, p.message.payload, p.message.qos⟩

def stepFanOut (E : Externals) (s : State) (i now : Nat) : Option State :=
  match s.publishing[i]? with
  | none => none
  | some p => some { s with
      broker := s.broker.publishInner E now none p.offer none none
      publishing := s.publishing.eraseIdx i }

/-- An ack of a logged message is journaled if its entry can be encoded. -/
def stepAck (s : State) (subId tag : Nat) : State :=
  match s.broker.ack subId tag with
  | none => s
  | some (broker, none) => { s with broker := broker }
  | some (broker, some a) =>
    { s with
      broker := broker
      acks := s.acks ++ [a]
      journaling := match (WalEntry.ack a).encode with
        | .ok _ => s.journaling ++ [a]
        | .error _ => s.journaling }

def stepJournal (s : State) (i : Nat) (roll : Bool) : Option State :=
  match s.journaling[i]? with
  | none => none
  | some a =>
    match (WalEntry.ack a).encode with
    | .error _ => none
    | .ok payload => (s.log.append roll payload).map fun log => { s with
        log := log
        journaling := s.journaling.eraseIdx i }

def stepJournalRefused (s : State) (i : Nat) : Option State :=
  if i < s.journaling.length then
    s.log.skipId.map fun log => { s with
      log := log
      journaling := s.journaling.eraseIdx i }
  else none

/-- On an error the round ends without a compaction. -/
def stepWriteCheckpoint (E : Externals) (s : State) (result : IoResult) : Option State :=
  match s.task, result, s.broker.currentSnapshot.encode E with
  | .written, _, _ => none
  | .waiting, .ok, .ok bytes => some { s with checkpoint := some bytes, task := .written }
  | .waiting, _, _ => some s

def stepCompact (s : State) (limit : Nat) : Option State :=
  match s.task with
  | .waiting => none
  | .written =>
    -- the snapshot of now, not the one that was written
    let safe := s.broker.currentSnapshot.snapshotId
    some { s with
      log := if 0 < safe then s.log.compactBelow safe limit else s.log
      task := .waiting }

def step (E : Externals) (s : State) : Action → Option State
  | .subscribe clientId topic qos connId mode group => some { s with
      broker := (s.broker.subscribeInnerGrouped clientId topic qos connId mode group).1 }
  | .subscribePattern clientId pattern qos connId mode => some { s with
      broker := (s.broker.subscribePatternInner clientId pattern qos connId mode).1 }
  | .unsubscribeConnection connId =>
    some { s with broker := s.broker.unsubscribeConnection connId }
  | .append message roll => stepAppend s message roll
  | .appendRefused message => stepAppendRefused s message
  | .fanOut i now => stepFanOut E s i now
  | .poll subId now => some { s with broker := (s.broker.poll now subId).1 }
  | .ack subId tag => some (stepAck s subId tag)
  | .journal i roll => stepJournal s i roll
  | .journalRefused i => stepJournalRefused s i
  | .writeCheckpoint result => stepWriteCheckpoint E s result
  | .compactBelow limit => stepCompact s limit
  | .buffers slots channels =>
    some { s with broker := { s.broker with slots := slots, channels := channels } }
  | .beginShutdown => some { s with broker := { s.broker with shuttingDown := true } }

/-! ## What a step can do -/

/-- The steps by what they do to consumers, tasks and log. -/
inductive Effect (E : Externals) (s : State) : Action → State → Prop
  | quiet {a : Action} {broker : Broker} {task : CheckpointTask} {checkpoint : Option Bytes}
      (h : s.broker.Quiet broker) (hc : checkpoint = s.checkpoint ∨
        ∃ bytes, checkpoint = some bytes ∧ s.broker.currentSnapshot.encode E = .ok bytes) :
      Effect E s a { s with broker := broker, task := task, checkpoint := checkpoint }
  | subscribed {a : Action} {broker : Broker} {l : Ledger} (ha : a.subscribes = true)
      (h : s.broker.Subscribes broker l) : Effect E s a { s with broker := broker }
  | skipped {a : Action} {log : Log} (h : s.log.skipId = some log) :
      Effect E s a { s with log := log }
  | refused {i : Nat} {log : Log} (h : s.log.skipId = some log) :
      Effect E s (.journalRefused i) { s with
        log := log
        journaling := s.journaling.eraseIdx i }
  | appended {a : Action} {log : Log} {message : WalMessageRecord} {roll : Bool} {payload : Bytes}
      (hencode : (WalEntry.message message).encode = .ok payload)
      (happend : s.log.append roll payload = some log) :
      Effect E s a { s with
        log := log
        publishing := s.publishing ++ [⟨s.log.nextId, message⟩] }
  | fannedOut {i now : Nat} {p : Publication} {broker : Broker} (hp : s.publishing[i]? = some p)
      (h : s.broker.Publishes broker p.offer (s.broker.targets E p.message.topic none)) :
      Effect E s (.fanOut i now) { s with
        broker := broker
        publishing := s.publishing.eraseIdx i }
  | acked {x tag : Nat} {a : WalAckRecord} {broker : Broker} {journaling : List WalAckRecord}
      (h : s.broker.Acks broker x tag a) (hj : ∀ a' ∈ journaling, a' ∈ s.journaling ∨ a' = a) :
      Effect E s (.ack x tag) { s with
        broker := broker
        acks := s.acks ++ [a]
        journaling := journaling }
  | journaled {i : Nat} {roll : Bool} {a : WalAckRecord} {payload : Bytes} {log : Log}
      (ha : s.journaling[i]? = some a) (hencode : (WalEntry.ack a).encode = .ok payload)
      (happend : s.log.append roll payload = some log) :
      Effect E s (.journal i roll) { s with
        log := log
        journaling := s.journaling.eraseIdx i }
  | compacted {limit : Nat} (h : 0 < s.broker.currentSnapshot.snapshotId) :
      Effect E s (.compactBelow limit) { s with
        log := s.log.compactBelow s.broker.currentSnapshot.snapshotId limit
        task := .waiting }

variable {E : Externals} {s s' : State} {a : Action}

theorem Effect.unchanged : Effect E s a s := .quiet (.refl _) (.inl rfl)

theorem stepAppend_effect {message : WalMessageRecord} {roll : Bool}
    (h : stepAppend s message roll = some s') : Effect E s (.append message roll) s' := by
  unfold stepAppend at h
  split at h
  · cases h
    exact .unchanged
  · split at h
    · cases h
      exact .unchanged
    · rename_i payload hencode
      split at h
      · obtain ⟨log, hskip, rfl⟩ := Option.map_eq_some_iff.mp h
        exact .skipped hskip
      · obtain ⟨log, happend, rfl⟩ := Option.map_eq_some_iff.mp h
        exact .appended hencode happend

theorem stepAppendRefused_effect {message : WalMessageRecord}
    (h : stepAppendRefused s message = some s') : Effect E s (.appendRefused message) s' := by
  unfold stepAppendRefused at h
  split at h
  · cases h
    exact .unchanged
  · split at h
    · cases h
      exact .unchanged
    · obtain ⟨log, hskip, rfl⟩ := Option.map_eq_some_iff.mp h
      exact .skipped hskip

theorem stepFanOut_effect {i now : Nat} (h : stepFanOut E s i now = some s') :
    Effect E s (.fanOut i now) s' := by
  unfold stepFanOut at h
  split at h
  · cases h
  · rename_i p hp
    cases h
    exact .fannedOut hp (Broker.publishInner_spec E s.broker now p.offer none none)

theorem stepAck_effect (s : State) (x tag : Nat) : Effect E s (.ack x tag) (stepAck s x tag) := by
  unfold stepAck
  split
  · exact .unchanged
  · rename_i broker hack
    exact .quiet (Broker.ack_quiet hack) (.inl rfl)
  · rename_i broker a hack
    refine .acked (Broker.ack_spec hack) ?_
    intro a' ha'
    split at ha'
    · simpa using ha'
    · exact .inl ha'

theorem stepJournal_effect {i : Nat} {roll : Bool} (h : stepJournal s i roll = some s') :
    Effect E s (.journal i roll) s' := by
  unfold stepJournal at h
  split at h
  · cases h
  · rename_i a ha
    split at h
    · cases h
    · rename_i payload hencode
      obtain ⟨log, happend, rfl⟩ := Option.map_eq_some_iff.mp h
      exact .journaled ha hencode happend

theorem stepJournalRefused_effect {i : Nat} (h : stepJournalRefused s i = some s') :
    Effect E s (.journalRefused i) s' := by
  unfold stepJournalRefused at h
  split at h
  · obtain ⟨log, hskip, rfl⟩ := Option.map_eq_some_iff.mp h
    exact .refused hskip
  · cases h

theorem stepWriteCheckpoint_effect {result : IoResult}
    (h : stepWriteCheckpoint E s result = some s') : Effect E s (.writeCheckpoint result) s' := by
  unfold stepWriteCheckpoint at h
  split at h
  · cases h
  · rename_i bytes _ hencode
    cases h
    exact .quiet (.refl _) (.inr ⟨bytes, rfl, hencode⟩)
  · cases h
    exact .unchanged

theorem stepCompact_effect {limit : Nat} (h : stepCompact s limit = some s') :
    Effect E s (.compactBelow limit) s' := by
  unfold stepCompact at h
  split at h
  · cases h
  · cases h
    by_cases hpos : 0 < s.broker.currentSnapshot.snapshotId
    · rw [if_pos hpos]
      exact .compacted hpos
    · rw [if_neg hpos]
      exact .quiet (.refl _) (.inl rfl)

theorem step_effect (h : step E s a = some s') : Effect E s a s' := by
  cases a with
  | subscribe clientId topic qos connId mode group =>
    cases h
    exact .subscribed rfl (Broker.subscribeInnerGrouped_spec ..)
  | subscribePattern clientId pattern qos connId mode =>
    cases h
    obtain ⟨topic, hspec⟩ :=
      Broker.subscribePatternInner_spec s.broker clientId pattern qos connId mode
    exact .subscribed rfl hspec
  | unsubscribeConnection connId =>
    cases h
    exact .quiet (Broker.unsubscribeConnection_forgets ..).quiet (.inl rfl)
  | append message roll => exact stepAppend_effect h
  | appendRefused message => exact stepAppendRefused_effect h
  | fanOut i now => exact stepFanOut_effect h
  | poll subId now =>
    cases h
    exact .quiet (Broker.poll_quiet ..) (.inl rfl)
  | ack subId tag =>
    cases h
    exact stepAck_effect ..
  | journal i roll => exact stepJournal_effect h
  | journalRefused i => exact stepJournalRefused_effect h
  | writeCheckpoint result => exact stepWriteCheckpoint_effect h
  | compactBelow limit => exact stepCompact_effect h
  | buffers slots channels =>
    cases h
    exact .quiet ⟨fun _ => rfl, fun _ hb => hb, rfl, rfl, fun _ _ hx => hx⟩ (.inl rfl)
  | beginShutdown =>
    cases h
    exact .quiet ⟨fun _ => rfl, fun _ hb => hb, rfl, rfl, fun _ _ hx => hx⟩ (.inl rfl)

/-! ## Starting up -/

/-- What `main` does before connections are accepted: a broker on the opened
log, the checkpoint if its file is sound, and the replay. -/
def boot (E : Externals) (config : BrokerConfig) (now : Nat) (log : Log)
    (checkpoint : Option Bytes) : State :=
  let loaded := match CheckpointSnapshot.loadFrom E checkpoint with
    | .ok snap => snap
    | .error _ => none
  { broker := (Broker.new config).replayFromWalWithCheckpoint E now log loaded
    log := log
    publishing := []
    journaling := []
    task := .waiting
    checkpoint := checkpoint
    acks := [] }

/-- The first process of all, on a new log. -/
def start (E : Externals) (config : BrokerConfig) : State := boot E config 0 .empty none

/-- Surroundings for runs on concrete inputs. -/
def plainExternals : Externals where
  ahash := fun _ => 0
  crc32 := Crc32.crc32
  encoder := fun buf _ _ _ payload => buf ++ payload

end BlipMQ.Daemon
