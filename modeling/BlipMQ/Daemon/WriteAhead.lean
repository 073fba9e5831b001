import BlipMQ.Core.Origin
import BlipMQ.Daemon.Session
import BlipMQ.Wal.Growth

/-!
# Daemon — the log and the queues

The broker together with the log it writes. A `publish_durable` is at least
three steps: it builds its request, it sends the request, and it resumes when
the answer is there. Between them the writer task, the journaling of acks,
other publishes and replays take their steps, in any order. A replay reads
the log in one step and then works through the records one at a time.

`returned` is bookkeeping no step reads: the result of each `publish_durable`
that has returned.
-/

namespace BlipMQ.Daemon.WriteAhead

open BlipMQ.Core
open Wal (WalError WalRecord WalWriteRequest)

/-- A call of `publish_durable` that waits for its append. -/
structure DurableCall where
  message : WalMessageRecord
  request : WalWriteRequest
  sent : Bool
  deriving DecidableEq

/-- Which replay it is: of the whole log behind the cursors, or to one subscriber. -/
inductive Replay where
  | fromWal (cursors : MaxMap (String × String))
  | toSubscriber (topic : String) (subId : Nat)

/-- A replay that has read the log, and the records it has still to look at. -/
structure ReplayTask where
  replay : Replay
  records : List WalRecord

structure State where
  broker : Broker
  wal : Wal.State
  nextCall : Nat
  calls : AList fun _ : Nat => DurableCall
  returned : AList fun _ : Nat => Except WalError Nat
  journaling : List Bytes
  replays : List ReplayTask

inductive Action where
  /-- Any call on the broker that neither reads nor writes the log. -/
  | call (a : BrokerAction)
  | ack (subId tag : Nat)
  /-- The task that journals an ack builds its request. -/
  | journal (i : Nat)
  /-- `publish_durable` up to the request for the writer. -/
  | publishDurable (message : WalMessageRecord)
  /-- Call number `k` sends its request. -/
  | send (k : Nat)
  /-- Call number `k` has its answer. -/
  | resume (k now : Nat)
  /-- A step of the writer task or of a caller that no `publish_durable` waits for. -/
  | log (a : Wal.Action)
  | replayFromWal (checkpoint : Option CheckpointSnapshot)
  | replayToSubscriber (subId fromOffset : Nat)
  /-- The `i`-th replay goes on. -/
  | replayNext (i now : Nat)

/-! ## The steps -/

/-- The calls on a broker that leave the log alone: only `publish_durable` and the
replays pass on the id of a record. -/
def plain : BrokerAction → Bool
  | .publish _ _ o _ _ => o.walId.isNone
  | .ack _ _ => false
  | .replayFromWal _ _ _ => false
  | .replayToSubscriber _ _ _ _ => false
  | _ => true

/-- An ack of a logged message is journaled if its entry can be encoded. -/
def stepAck (s : State) (subId tag : Nat) : State :=
  match s.broker.ack subId tag with
  | none => s
  | some (broker, none) => { s with broker := broker }
  | some (broker, some a) =>
    { s with
      broker := broker
      journaling := match (WalEntry.ack a).encode with
        | .ok payload => s.journaling ++ [payload]
        | .error _ => s.journaling }

def stepJournal (s : State) (i : Nat) : Option State :=
  match s.journaling[i]? with
  | none => none
  | some payload => some { s with
      wal := Wal.stepBuild s.wal payload false
      journaling := s.journaling.eraseIdx i }

/-- Call number `k` returns. -/
def State.return (s : State) (k : Nat) (result : Except WalError Nat) : State :=
  { s with calls := s.calls.erase k, returned := s.returned.insert k result }

def stepPublishDurable (s : State) (message : WalMessageRecord) : State :=
  let k := s.nextCall
  let s := { s with nextCall := k + 1 }
  if s.broker.shuttingDown then
    s.return k (.error (.corruption "write-ahead log not available: broker shutting down"))
  else if !s.broker.hasWal then
    s.return k (.error (.corruption "write-ahead log not configured for broker"))
  else
    match (WalEntry.message message).encode with
    | .error e => s.return k (.error e)
    | .ok payload =>
      let built := { s with wal := Wal.stepBuild s.wal payload true }
      match Wal.buildRequest s.wal payload true with
      | .error e => built.return k (.error e)
      | .ok request => { built with calls := s.calls.insert k ⟨message, request, false⟩ }

/-- `send_request`; its error is that of the call. -/
def stepSend (s : State) (k : Nat) : Option State :=
  match s.calls.lookup k with
  | none => none
  | some call =>
    if call.sent then none
    else
      match s.wal.building.findIdx? (· = call.request) with
      | none => none
      | some i =>
        match Wal.stepSend s.wal i with
        | none => none
        | some wal =>
          match Wal.sendError s.wal with
          | some e => some ({ s with wal := wal }.return k (.error e))
          | none => some { s with
              wal := wal
              calls := s.calls.insert k { call with sent := true } }

/-- What has been sent on the oneshot channel of a request. -/
def answer (wal : Wal.State) (request : WalWriteRequest) : Option (Except WalError Unit) :=
  (wal.answers.find? fun p => p.1 = request).map Prod.snd

/-- The call gets its answer: the fan-out, or an error. A writer that has returned
has dropped the other end of the channel. -/
def stepResume (E : Externals) (s : State) (k now : Nat) : Option State :=
  match s.calls.lookup k with
  | none => none
  | some call =>
    if !call.sent then none
    else
      match answer s.wal call.request with
      | some (.ok ()) =>
        let walId := call.request.record.id
        some ({ s with
          broker := s.broker.publishWithWalId E now call.message.topic call.message.payload
            call.message.qos (some walId) none }.return k (.ok walId))
      | some (.error e) => some (s.return k (.error e))
      | none => if s.wal.pc = .stopped then some (s.return k (.error .writerStopped)) else none

/-- The steps no `publish_durable` takes itself. -/
def unawaited (wal : Wal.State) : Wal.Action → Bool
  | .buildRequest _ _ => false
  | .sendRequest i => (wal.building[i]?).all fun request => !request.durableAck
  | _ => true

/-- One record of a replay. -/
def Replay.next (E : Externals) (now : Nat) (b : Broker) (r : WalRecord) : Replay → Broker
  | .fromWal cursors => Broker.replayRecord E now cursors b r
  | .toSubscriber topic subId => Broker.replayTo E now topic subId b r

/-- The end of a replay. -/
def Replay.finish (b : Broker) : Replay → Broker
  | .fromWal cursors => { b with ackCursors := b.ackCursors.raiseAll cursors.pairs }
  | .toSubscriber _ _ => b

def stepReplayNext (E : Externals) (s : State) (i now : Nat) : Option State :=
  match s.replays[i]? with
  | none => none
  | some ⟨replay, []⟩ => some { s with
      broker := replay.finish s.broker
      replays := s.replays.eraseIdx i }
  | some ⟨replay, r :: records⟩ => some { s with
      broker := replay.next E now s.broker r
      replays := s.replays.set i ⟨replay, records⟩ }

section Step

variable (E : Externals) (crc : Bytes → UInt32)

/-- Reads the log and pass 1; an unreadable log is the end of it. -/
def stepReplayFromWal (s : State) (checkpoint : Option CheckpointSnapshot) : State :=
  match Wal.iterateFrom crc s.wal.index s.wal.contents (Broker.replayStart checkpoint) with
  | .error _ => s
  | .ok records =>
    let cursors := records.foldl Broker.refineCursor (Broker.seedCursors checkpoint)
    { s with replays := s.replays ++ [⟨.fromWal cursors, records⟩] }

def stepReplayToSubscriber (s : State) (subId fromOffset : Nat) : State :=
  match s.broker.subscriptions.lookup subId with
  | none => s
  | some subRef =>
    let startId := if fromOffset = 0 then 1 else fromOffset
    match Wal.iterateFrom crc s.wal.index s.wal.contents startId with
    | .error _ => s
    | .ok records =>
      { s with replays := s.replays ++ [⟨.toSubscriber subRef.topic subId, records⟩] }

def step (s : State) : Action → Option State
  | .call a => if plain a then some { s with broker := s.broker.act E a } else none
  | .ack subId tag => some (stepAck s subId tag)
  | .journal i => stepJournal s i
  | .publishDurable message => some (stepPublishDurable s message)
  | .send k => stepSend s k
  | .resume k now => stepResume E s k now
  | .log a =>
    if unawaited s.wal a then (Wal.step crc s.wal a).map fun wal => { s with wal := wal } else none
  | .replayFromWal checkpoint => some (stepReplayFromWal crc s checkpoint)
  | .replayToSubscriber subId fromOffset => some (stepReplayToSubscriber crc s subId fromOffset)
  | .replayNext i now => stepReplayNext E s i now

end Step

/-- A broker that has just been started on an opened log. -/
def start (config : BrokerConfig) (wal : Wal.State) : State where
  broker := Broker.new config
  wal := wal
  nextCall := 0
  calls := ∅
  returned := ∅
  journaling := []
  replays := []

/-! ## What a step can do -/

/-- The `publish_durable` that takes the step. -/
def State.callOf (s : State) : Action → Option Nat
  | .publishDurable _ => some s.nextCall
  | .send k => some k
  | .resume k _ => some k
  | _ => none

/-- What the call offers once its record is on disk. -/
def DurableCall.offer (call : DurableCall) : Offer :=
  ⟨some call.request.record.id, call.message.topic, call.message.payload, call.message.qos⟩

/-- Any step of the log, or none. -/
def LogStep (crc : Bytes → UInt32) (wal wal' : Wal.State) : Prop :=
  wal' = wal ∨ ∃ a, Wal.step crc wal a = some wal'

/-- The steps by what they do to queues, log and calls. -/
inductive Effect (E : Externals) (crc : Bytes → UInt32) (s : State) (a : Action) : State → Prop
  | registered {broker : Broker} {sub : Subscriber} (h : s.broker.Registers broker sub [])
      (hcall : s.callOf a = none) : Effect E crc s a { s with broker := broker }
  | served {broker : Broker} {svcs : List (Nat × Service)} {journaling : List Bytes}
      (h : s.broker.Serves broker svcs) (hoffers : OnlyOffers (fun o => o.walId = none) svcs)
      (hcall : s.callOf a = none) :
      Effect E crc s a { s with broker := broker, journaling := journaling }
  | logged {wal : Wal.State} {journaling : List Bytes} (h : LogStep crc s.wal wal) :
      Effect E crc s a { s with wal := wal, journaling := journaling }
  | entered {message : WalMessageRecord} {payload : Bytes}
      (hencode : (WalEntry.message message).encode = .ok payload) :
      Effect E crc s a { s with
        nextCall := s.nextCall + 1
        wal := Wal.stepBuild s.wal payload true
        calls := s.calls.insert s.nextCall
          ⟨message, ⟨⟨s.wal.nextId, payload⟩, true⟩, false⟩ }
  | refused {wal : Wal.State} {e : WalError} (h : LogStep crc s.wal wal)
      (hcall : s.callOf a = some s.nextCall) :
      Effect E crc s a
        ({ s with nextCall := s.nextCall + 1, wal := wal }.return s.nextCall (.error e))
  | failed {k : Nat} {call : DurableCall} {wal : Wal.State} {e : WalError}
      (hk : s.calls.lookup k = some call) (h : LogStep crc s.wal wal)
      (hcall : s.callOf a = some k) :
      Effect E crc s a ({ s with wal := wal }.return k (.error e))
  | sent {k : Nat} {call : DurableCall} {wal : Wal.State} (hk : s.calls.lookup k = some call)
      (h : LogStep crc s.wal wal) :
      Effect E crc s a { s with
        wal := wal
        calls := s.calls.insert k { call with sent := true } }
  | fannedOut {k now : Nat} {call : DurableCall} (ha : a = .resume k now)
      (hk : s.calls.lookup k = some call) (hanswer : (call.request, .ok ()) ∈ s.wal.answers) :
      Effect E crc s a
        ({ s with broker := s.broker.publishInner E now none call.offer none none }.return k
          (.ok call.request.record.id))
  | read {task : ReplayTask} (h : ∀ r ∈ task.records, Wal.Written crc s.wal r) :
      Effect E crc s a { s with replays := s.replays ++ [task] }
  | replayed {i now : Nat} {replay : Replay} {r : WalRecord} {records : List WalRecord}
      (ha : a = .replayNext i now) (hi : s.replays[i]? = some ⟨replay, r :: records⟩) :
      Effect E crc s a { s with
        broker := replay.next E now s.broker r
        replays := s.replays.set i ⟨replay, records⟩ }
  | finished {i : Nat} {replay : Replay} (hcall : s.callOf a = none) :
      Effect E crc s a { s with
        broker := replay.finish s.broker
        replays := s.replays.eraseIdx i }

section Steps

variable {E : Externals} {crc : Bytes → UInt32} {s s' : State} {a : Action}

theorem stepAck_effect (s : State) (x tag : Nat) :
    Effect E crc s (.ack x tag) (stepAck s x tag) := by
  have hserves := Broker.ack_serves (b := s.broker) x tag
  have hoffers : OnlyOffers (fun o => o.walId = none) (s.broker.ackServices x tag) := by
    unfold Broker.ackServices
    split
    · exact .single fun _ h => by cases h
    · exact .nil
  unfold stepAck
  split
  · rename_i hack
    rw [hack] at hserves
    exact .served hserves hoffers rfl
  · rename_i broker hack
    rw [hack] at hserves
    exact .served hserves hoffers rfl
  · rename_i broker a hack
    rw [hack] at hserves
    exact .served hserves hoffers rfl

theorem plain_effect {b : BrokerAction} (hplain : plain b = true) :
    Effect E crc s (.call b) { s with broker := s.broker.act E b } := by
  cases hnew : s.broker.newSubscriber b with
  | some sub =>
    have hreg := Broker.act_registers (E := E) hnew
    rw [hreg.services] at hreg
    exact .registered hreg rfl
  | none =>
    have hserves := Broker.act_serves E hnew
    refine .served hserves ?_ rfl
    cases b with
    | publish now pre o ttl key =>
      exact Broker.publishServices_offers (P := fun o => o.walId = none)
        (Option.isNone_iff_eq_none.mp hplain) s.broker now pre ttl key
    | maintenanceTick now clock => exact Broker.tickServices_offers s.broker now clock
    | poll now x =>
      show OnlyOffers _ (s.broker.pollServices now x)
      unfold Broker.pollServices
      split
      · exact .single fun _ h => by cases h
      · exact .nil
    | ack => cases hplain
    | replayFromWal => cases hplain
    | replayToSubscriber => cases hplain
    | subscribe | subscribePattern | unsubscribeConnection | buffers | beginShutdown => exact .nil

theorem stepPublishDurable_effect (s : State) (message : WalMessageRecord) :
    Effect E crc s (.publishDurable message) (stepPublishDurable s message) := by
  unfold stepPublishDurable
  dsimp only
  split
  · exact .refused (.inl rfl) rfl
  split
  · exact .refused (.inl rfl) rfl
  split
  · exact .refused (.inl rfl) rfl
  rename_i payload hencode
  unfold Wal.buildRequest
  by_cases hlen : 2 ^ 32 ≤ payload.length
  · rw [if_pos hlen]
    exact .refused (.inr ⟨.buildRequest payload true, rfl⟩) rfl
  · rw [if_neg hlen]
    exact .entered hencode

theorem stepSend_effect {k : Nat} (h : stepSend s k = some s') :
    Effect E crc s (.send k) s' := by
  unfold stepSend at h
  split at h
  · cases h
  rename_i call hcall
  split at h
  · cases h
  split at h
  · cases h
  rename_i i hi
  split at h
  · cases h
  rename_i wal hsend
  split at h
  · cases h
    exact .failed hcall (.inr ⟨.sendRequest i, hsend⟩) rfl
  · cases h
    exact .sent hcall (.inr ⟨.sendRequest i, hsend⟩)

theorem stepResume_effect {k now : Nat} (h : stepResume E s k now = some s') :
    Effect E crc s (.resume k now) s' := by
  unfold stepResume at h
  split at h
  · cases h
  rename_i call hcall
  split at h
  · cases h
  split at h
  · rename_i hanswer
    cases h
    obtain ⟨p, hp, hsnd⟩ := Option.map_eq_some_iff.mp hanswer
    have hfst : p.1 = call.request := by simpa using List.find?_some hp
    have hmem := List.mem_of_find?_eq_some hp
    rw [← Prod.mk.eta (p := p), hfst, hsnd] at hmem
    exact .fannedOut rfl hcall hmem
  · cases h
    exact .failed hcall (.inl rfl) rfl
  · split at h
    · cases h
      exact .failed hcall (.inl rfl) rfl
    · cases h

theorem stepReplayNext_effect {i now : Nat} (h : stepReplayNext E s i now = some s') :
    Effect E crc s (.replayNext i now) s' := by
  unfold stepReplayNext at h
  split at h
  · cases h
  · cases h
    exact .finished rfl
  · rename_i replay r records hi
    cases h
    exact .replayed rfl hi

theorem step_effect (h : step E crc s a = some s') : Effect E crc s a s' := by
  have hsame : ∀ a, Effect E crc s a s := fun a => .logged (.inl rfl)
  cases a with
  | call b =>
    obtain ⟨hplain, ⟨⟩⟩ := Option.ite_none_right_eq_some.mp h
    exact plain_effect hplain
  | ack x tag =>
    cases h
    exact stepAck_effect s x tag
  | journal i =>
    simp only [step, stepJournal] at h
    split at h
    · cases h
    · rename_i payload _
      cases h
      exact .logged (.inr ⟨.buildRequest payload false, rfl⟩)
  | publishDurable message =>
    cases h
    exact stepPublishDurable_effect s message
  | send k => exact stepSend_effect h
  | resume k now => exact stepResume_effect h
  | log b =>
    obtain ⟨wal, hwal, rfl⟩ := Option.map_eq_some_iff.mp (Option.ite_none_right_eq_some.mp h).2
    exact .logged (.inr ⟨b, hwal⟩)
  | replayFromWal checkpoint =>
    cases h
    unfold stepReplayFromWal
    split
    · exact hsame _
    · rename_i records hread
      exact .read fun r hr => Wal.written_of_iterateFrom hread hr
  | replayToSubscriber x fromOffset =>
    cases h
    unfold stepReplayToSubscriber
    split
    · exact hsame _
    · dsimp only
      split
      · exact hsame _
      · rename_i records hread
        exact .read fun r hr => Wal.written_of_iterateFrom hread hr
  | replayNext i now => exact stepReplayNext_effect h

end Steps

/-! ## The log is ahead of the queues -/

/-- A record with `P` holds, under this id, a message with this payload. -/
def LoggedAs (P : WalRecord → Prop) (i : Nat) (payload : Bytes) : Prop :=
  ∃ r m, P r ∧ r.id = i ∧ message? r = some m ∧ m.payload = payload

/-- What is known, before the step, of the record of an entry that the step
creates. The steps that are not named create no entry with an id. -/
def createdFrom (crc : Bytes → UInt32) (wal : Wal.State) : Action → WalRecord → Prop
  | .resume _ _ => Wal.Fsynced crc wal
  | .replayNext _ _ => Wal.Written crc wal
  | _ => fun _ => False

/-- What every call, every replay and every queue refers to is in the log. -/
structure Ahead (crc : Bytes → UInt32) (s : State) : Prop where
  appending : Wal.Appending crc s.wal
  calls : ∀ k call, s.calls.lookup k = some call →
    message? call.request.record = some call.message
  replays : ∀ task ∈ s.replays, ∀ r ∈ task.records, Wal.Written crc s.wal r
  queues : ∀ x sub payload i, s.broker.subscribers.lookup x = some sub →
    sub.queue.Carries payload (some i) → LoggedAs (Wal.Written crc s.wal) i payload

section Ahead

variable {E : Externals} {crc : Bytes → UInt32} {s s' : State} {a : Action} {payload : Bytes}

theorem not_carries_new {clientId : String} {qos : QoSLevel} {capacity : Nat}
    {mode : DeliveryMode} {home : SubscriptionRef} {walId : Option Nat} :
    ¬ (Subscriber.new clientId qos capacity mode home).queue.Carries payload walId := by
  rintro ⟨tag, e, he | he, -, -⟩ <;> cases he

theorem Replay.next_serves (replay : Replay) (now : Nat) (b : Broker) (r : WalRecord) :
    ∃ svcs, b.Serves (replay.next E now b r) svcs ∧ OnlyOffers (Broker.RecordOffer r) svcs := by
  cases replay with
  | fromWal cursors =>
    exact ⟨_, Broker.replayRecord_serves now cursors r,
      Broker.replayRecordServices_offers now cursors b r⟩
  | toSubscriber topic x =>
    exact ⟨_, Broker.replayTo_serves now topic x r, Broker.replayToServices_offers now topic x b r⟩

theorem Replay.finish_subscribers (replay : Replay) (b : Broker) :
    (replay.finish b).subscribers = b.subscribers := by
  cases replay <;> rfl

/-- **Written, then created**: a logged message that is in a queue after a step
was there before, or its record was. -/
theorem Ahead.created (h : Ahead crc s) (he : Effect E crc s a s') {x : Nat} {sub' : Subscriber}
    (hx : s'.broker.subscribers.lookup x = some sub') {i : Nat}
    (hcarries : sub'.queue.Carries payload (some i)) :
    (∃ sub, s.broker.subscribers.lookup x = some sub ∧ sub.queue.Carries payload (some i)) ∨
      LoggedAs (createdFrom crc s.wal a) i payload := by
  cases he with
  | registered hreg hcall =>
    obtain ⟨clientId, qos, capacity, mode, home, rfl⟩ := hreg.fresh
    rw [hreg.subscribers] at hx
    rcases lookup_insert_eq_some.mp hx with ⟨-, rfl⟩ | ⟨-, hx⟩
    · exact absurd hcarries not_carries_new
    · exact .inl ⟨sub', hx, hcarries⟩
  | served hserves hoffers hcall =>
    rcases hserves.carries hoffers hx hcarries with hold | ⟨o, hnone, -, hid⟩
    · exact .inl hold
    · rw [hnone] at hid
      cases hid
  | logged | entered | refused | failed | sent | read => exact .inl ⟨sub', hx, hcarries⟩
  | fannedOut ha hk hanswer =>
    rename_i k now call
    subst ha
    have hserves : s.broker.Serves (s.broker.publishInner E now none call.offer none none) _ :=
      Broker.publishInner_serves now none call.offer none none
    have hoffers := Broker.publishServices_offers (E := E) (P := fun o => o = call.offer) rfl
      s.broker now none none none
    rcases hserves.carries hoffers hx hcarries with hold | ⟨o, rfl, rfl, hid⟩
    · exact .inl hold
    · obtain ⟨origin, L, hinv, h₀⟩ := h.appending.inv
      exact .inr ⟨call.request.record, call.message, hinv.fsynced h₀ hanswer,
        Option.some.inj hid, h.calls k call hk, rfl⟩
  | replayed ha hi =>
    rename_i j now replay r records
    subst ha
    obtain ⟨svcs, hserves, hoffers⟩ := replay.next_serves (E := E) now s.broker r
    rcases hserves.carries hoffers hx hcarries with hold | ⟨o, ⟨m, hm, rfl⟩, rfl, hid⟩
    · exact .inl hold
    · exact .inr ⟨r, m, h.replays _ (List.mem_of_getElem? hi) r List.mem_cons_self,
        Option.some.inj hid, hm, rfl⟩
  | finished hcall =>
    rename_i replay
    exact .inl ⟨sub', by rwa [replay.finish_subscribers] at hx, hcarries⟩

theorem LoggedAs.mono {P Q : WalRecord → Prop} {i : Nat} (h : LoggedAs P i payload)
    (himp : ∀ r, P r → Q r) : LoggedAs Q i payload := by
  obtain ⟨r, m, hr, hrest⟩ := h
  exact ⟨r, m, himp r hr, hrest⟩

theorem written_of_createdFrom {wal : Wal.State} {r : WalRecord} (h : createdFrom crc wal a r) :
    Wal.Written crc wal r := by
  cases a with
  | resume k now => exact Wal.Fsynced.written h
  | replayNext i now => exact h
  | _ => exact False.elim h

/-- What a step of the log does to the facts about it. -/
theorem LogStep.spec {wal wal' : Wal.State} (h : LogStep crc wal wal')
    (happ : Wal.Appending crc wal) :
    Wal.Appending crc wal' ∧ ∀ r, Wal.Written crc wal r → Wal.Written crc wal' r := by
  rcases h with rfl | ⟨b, hb⟩
  · exact ⟨happ, fun _ hr => hr⟩
  · obtain ⟨happ', hkeeps⟩ := happ.step hb
    exact ⟨happ', fun r hr => hr.keeps hkeeps⟩

theorem Effect.logStep (he : Effect E crc s a s') : LogStep crc s.wal s'.wal := by
  cases he with
  | registered | served | fannedOut | read | replayed | finished => exact .inl rfl
  | logged h => exact h
  | entered hencode => exact .inr ⟨.buildRequest _ true, rfl⟩
  | refused h hcall => exact h
  | failed hk h hcall => exact h
  | sent hk h => exact h

/-- What every call meets, if a new one meets it and sending does not matter. -/
theorem Effect.forall_calls {P : WalMessageRecord → WalWriteRequest → Prop}
    (he : Effect E crc s a s')
    (h : ∀ k call, s.calls.lookup k = some call → P call.message call.request)
    (hnew : ∀ message payload, (WalEntry.message message).encode = .ok payload →
      s'.wal = Wal.stepBuild s.wal payload true → P message ⟨⟨s.wal.nextId, payload⟩, true⟩) :
    ∀ k call, s'.calls.lookup k = some call → P call.message call.request := by
  cases he with
  | registered | served | logged | read | replayed | finished => exact h
  | entered hencode => exact forall_lookup_insert h (hnew _ _ hencode rfl)
  | refused | failed | fannedOut => exact forall_lookup_erase h _
  | sent hk _ =>
    have hcall := h _ _ hk
    exact forall_lookup_insert h hcall

/-- What a replay has still to look at was in the log before the step. -/
theorem Effect.replays (he : Effect E crc s a s')
    (h : ∀ task ∈ s.replays, ∀ r ∈ task.records, Wal.Written crc s.wal r) :
    ∀ task ∈ s'.replays, ∀ r ∈ task.records, Wal.Written crc s.wal r := by
  cases he with
  | registered | served | logged | entered | refused | failed | sent | fannedOut => exact h
  | read hnew => exact forall_mem_concat h hnew
  | replayed ha hi =>
    intro task htask
    rcases List.mem_or_eq_of_mem_set htask with htask | rfl
    · exact h task htask
    · exact fun r hr => h _ (List.mem_of_getElem? hi) r (List.mem_cons_of_mem _ hr)
  | finished hcall => exact fun task htask => h task (List.mem_of_mem_eraseIdx htask)

theorem Ahead.effect (h : Ahead crc s) (he : Effect E crc s a s') : Ahead crc s' := by
  obtain ⟨happ, hwritten⟩ := he.logStep.spec h.appending
  have hcalls := he.forall_calls (P := fun message request =>
    message? request.record = some message) h.calls fun _ _ hencode _ => message?_of_encode hencode
  refine ⟨happ, hcalls, fun task htask r hr => hwritten r (he.replays h.replays task htask r hr),
    ?_⟩
  intro x sub payload i hx hcarries
  rcases h.created he hx hcarries with ⟨sub₀, hx₀, hcarries₀⟩ | hnew
  · exact (h.queues x sub₀ payload i hx₀ hcarries₀).mono hwritten
  · exact hnew.mono fun r hr => hwritten r (written_of_createdFrom hr)

end Ahead

/-! ## Calls that fail -/

/-- A call has its number to itself, and it returns once. -/
structure Numbered (s : State) : Prop where
  calls : ∀ k, (s.calls.lookup k).isSome → k < s.nextCall
  returned : ∀ k, (s.returned.lookup k).isSome → k < s.nextCall
  once : ∀ k, (s.returned.lookup k).isSome → s.calls.lookup k = none

section Calls

variable {E : Externals} {crc : Bytes → UInt32} {s s' : State} {a : Action} {k : Nat}

theorem Numbered.return (h : Numbered s) {n : Nat} (hk : k < n) (hn : s.nextCall ≤ n)
    {broker : Broker} {wal : Wal.State} (result : Except WalError Nat) :
    Numbered ({ s with broker := broker, wal := wal, nextCall := n }.return k result) := by
  refine ⟨fun j hj => ?_, fun j hj => ?_, fun j hj => ?_⟩
  · exact Nat.lt_of_lt_of_le (h.calls j (isSome_lookup_erase.mp hj).2) hn
  · rcases isSome_lookup_insert.mp hj with rfl | hj
    · exact hk
    · exact Nat.lt_of_lt_of_le (h.returned j hj) hn
  · dsimp only [State.return] at hj ⊢
    rw [lookup_insert_eq] at hj
    rw [lookup_erase_eq]
    split
    · rfl
    · rename_i hne
      rw [if_neg hne] at hj
      exact h.once j hj

theorem Numbered.effect (h : Numbered s) (he : Effect E crc s a s') : Numbered s' := by
  have hlt : ∀ {k call}, s.calls.lookup k = some call → k < s.nextCall :=
    fun hk => h.calls _ (by rw [hk]; rfl)
  cases he with
  | registered | served | logged | read | replayed | finished =>
    exact ⟨h.calls, h.returned, h.once⟩
  | entered hencode =>
    refine ⟨fun j hj => ?_, fun j hj => Nat.lt_succ_of_lt (h.returned j hj), fun j hj => ?_⟩
    · rcases isSome_lookup_insert.mp hj with rfl | hj
      · exact Nat.lt_succ_self _
      · exact Nat.lt_succ_of_lt (h.calls j hj)
    · dsimp only at hj ⊢
      rw [lookup_insert_eq, if_neg (Nat.ne_of_lt (h.returned j hj))]
      exact h.once j hj
  | refused h' hcall => exact h.return (Nat.lt_succ_self _) (Nat.le_succ _) _
  | failed hk h' hcall => exact h.return (hlt hk) (Nat.le_refl _) _
  | fannedOut ha hk hanswer => exact h.return (hlt hk) (Nat.le_refl _) _
  | sent hk h' =>
    have hk' := hlt hk
    refine ⟨fun j hj => ?_, h.returned, fun j hj => ?_⟩
    · rcases isSome_lookup_insert.mp hj with rfl | hj
      · exact hk'
      · exact h.calls j hj
    · have hnone := h.once j hj
      dsimp only
      rw [lookup_insert_eq]
      split
      · rename_i heq
        rw [heq, hk] at hnone
        cases hnone
      · exact hnone

/-- A result stays as it is. -/
theorem Numbered.returned_step (h : Numbered s) (he : Effect E crc s a s')
    {result : Except WalError Nat} (hk : s.returned.lookup k = some result) :
    s'.returned.lookup k = some result := by
  have hother : ∀ j r, j ≠ k → (s.returned.insert j r).lookup k = some result := by
    intro j r hne
    rw [lookup_insert_eq, if_neg (Ne.symm hne)]
    exact hk
  have hcalls : ∀ {j call}, s.calls.lookup j = some call → j ≠ k := by
    rintro j call hj rfl
    rw [h.once j (by rw [hk]; rfl)] at hj
    cases hj
  cases he with
  | registered | served | logged | entered | sent | read | replayed | finished => exact hk
  | refused h' hcall =>
    exact hother _ _ (Nat.ne_of_gt (h.returned k (by rw [hk]; rfl)))
  | failed hj h' hcall => exact hother _ _ (hcalls hj)
  | fannedOut ha hj hanswer => exact hother _ _ (hcalls hj)

/-- The step leaves the broker as it is, if call `k` takes it. -/
def LeavesBroker (E : Externals) (crc : Bytes → UInt32) (k : Nat) (s : State) (a : Action) : Prop :=
  s.callOf a = some k → ∀ s', step E crc s a = some s' → s'.broker = s.broker

/-- A call touches the broker only when it returns `Ok`. -/
theorem Effect.broker_of_call (he : Effect E crc s a s') (hcall : s.callOf a = some k) :
    s'.broker = s.broker ∨ ∃ id, s'.returned.lookup k = some (.ok id) := by
  cases he with
  | registered h hnone => rw [hnone] at hcall; cases hcall
  | served h ho hnone => rw [hnone] at hcall; cases hcall
  | finished hnone => rw [hnone] at hcall; cases hcall
  | replayed ha hi =>
    subst ha
    cases hcall
  | logged | entered | refused | failed | sent | read => exact .inl rfl
  | fannedOut ha hk hanswer =>
    subst ha
    cases hcall
    exact .inr ⟨_, AList.lookup_insert _⟩

theorem Numbered.returned_run (h : Numbered s) {as : List Action}
    (hrun : run (step E crc) s as = some s') {result : Except WalError Nat}
    (hk : s.returned.lookup k = some result) : s'.returned.lookup k = some result :=
  (run_invariant (P := fun s => Numbered s ∧ s.returned.lookup k = some result)
    (fun _ _ _ h hs => ⟨h.1.effect (step_effect hs), h.1.returned_step (step_effect hs) h.2⟩)
    ⟨h, hk⟩ hrun).2

/-- **A call that returns an error has not touched the broker.** -/
theorem Numbered.leavesBroker (h : Numbered s) {as : List Action}
    (hrun : run (step E crc) s as = some s') {e : WalError}
    (hk : s'.returned.lookup k = some (.error e)) :
    Meets (step E crc) (LeavesBroker E crc k) s as := by
  induction as generalizing s with
  | nil => trivial
  | cons a as ih =>
    obtain ⟨t, ht, hrest⟩ := run_cons.mp hrun
    have hn := h.effect (step_effect ht)
    refine ⟨fun hcall t' ht' => ?_, fun t' ht' => ?_⟩
    · rw [ht] at ht'
      cases ht'
      rcases (step_effect ht).broker_of_call hcall with hsame | ⟨id, hid⟩
      · exact hsame
      · rw [hn.returned_run hrest hid] at hk
        cases hk
    · rw [ht] at ht'
      cases ht'
      exact ih hn hrest

end Calls

/-! ## Replays without interruption -/

section Replays

variable {E : Externals} {crc : Bytes → UInt32} {s : State}

theorem run_replay (replay : Replay) (records : List WalRecord) (before : List ReplayTask)
    (now : Nat) (b : Broker) :
    run (step E crc) { s with broker := b, replays := before ++ [⟨replay, records⟩] }
        (List.replicate (records.length + 1) (.replayNext before.length now)) =
      some { s with
        broker := replay.finish (records.foldl (fun b r => replay.next E now b r) b)
        replays := before } := by
  induction records generalizing b with
  | nil => simp [run, step, stepReplayNext, List.eraseIdx_append_of_length_le]
  | cons r records ih =>
    rw [List.length_cons, List.replicate_succ, run_cons]
    exact ⟨_, by simp [step, stepReplayNext], ih _⟩

/-- **A replay that nothing interrupts is the replay of the broker**, where the log
is read as the broker sees it. -/
theorem run_replayFromWal (now : Nat) (log : Log) (checkpoint : Option CheckpointSnapshot)
    (hread : Wal.iterateFrom crc s.wal.index s.wal.contents (Broker.replayStart checkpoint) =
      .ok (log.iterateFrom (Broker.replayStart checkpoint))) :
    run (step E crc) s (.replayFromWal checkpoint ::
        List.replicate ((log.iterateFrom (Broker.replayStart checkpoint)).length + 1)
          (.replayNext s.replays.length now)) =
      some { s with broker := s.broker.replayFromWalWithCheckpoint E now log checkpoint } := by
  rw [run_cons]
  refine ⟨_, rfl, ?_⟩
  unfold stepReplayFromWal
  rw [hread]
  exact run_replay ..

theorem run_replayToSubscriber (now : Nat) (log : Log) {x fromOffset : Nat}
    {subRef : SubscriptionRef} (hx : s.broker.subscriptions.lookup x = some subRef)
    (hread : Wal.iterateFrom crc s.wal.index s.wal.contents
      (if fromOffset = 0 then 1 else fromOffset) =
        .ok (log.iterateFrom (if fromOffset = 0 then 1 else fromOffset))) :
    run (step E crc) s (.replayToSubscriber x fromOffset ::
        List.replicate ((log.iterateFrom (if fromOffset = 0 then 1 else fromOffset)).length + 1)
          (.replayNext s.replays.length now)) =
      some { s with broker := s.broker.replayToSubscriber E now log x fromOffset } := by
  rw [run_cons]
  refine ⟨_, rfl, ?_⟩
  unfold stepReplayToSubscriber Broker.replayToSubscriber
  rw [hx]
  dsimp only
  rw [hread]
  exact run_replay ..

end Replays

/-! ## Whole runs -/

section Runs

variable {E : Externals} {crc : Bytes → UInt32} {brokerConfig : BrokerConfig}
  {config : Wal.WalConfig} {path : Wal.WalPath} {o : Wal.Opened} {synced : Nat → Nat}

theorem Ahead.start (hopen : Wal.openWithConfig crc config path = .ok o) (hend : o.AtEnd) :
    Ahead crc (start brokerConfig (o.start config synced)) where
  appending := hend.start hopen synced
  calls _ _ h := by cases h
  replays _ h := absurd h List.not_mem_nil
  queues _ _ _ _ h := by cases h

theorem Numbered.start (wal : Wal.State) : Numbered (start brokerConfig wal) where
  calls _ h := by cases h
  returned _ h := by cases h
  once _ h := by cases h

/-- **The log is ahead of the queues.** In every state of every run, a message
that is stored under a record's id has such a record in the log. It is stored
by a step before which the record was written, and fsynced if the step is that
of a live publish. A `publish_durable` that has returned an error has left the
broker as it was at each of its steps. -/
theorem log_ahead_of_queues (hopen : Wal.openWithConfig crc config path = .ok o) (hend : o.AtEnd)
    {as : List Action} {s : State}
    (hrun : run (step E crc) (start brokerConfig (o.start config synced)) as = some s) :
    (∀ x sub payload i, s.broker.subscribers.lookup x = some sub →
      sub.queue.Carries payload (some i) → LoggedAs (Wal.Written crc s.wal) i payload) ∧
    (∀ a s' x sub' payload i, step E crc s a = some s' →
      s'.broker.subscribers.lookup x = some sub' → sub'.queue.Carries payload (some i) →
      (∃ sub, s.broker.subscribers.lookup x = some sub ∧ sub.queue.Carries payload (some i)) ∨
        LoggedAs (createdFrom crc s.wal a) i payload) ∧
    ∀ k e, s.returned.lookup k = some (.error e) →
      Meets (step E crc) (LeavesBroker E crc k) (start brokerConfig (o.start config synced))
        as := by
  have hahead : Ahead crc s :=
    run_invariant (fun _ _ _ h hs => h.effect (step_effect hs)) (Ahead.start hopen hend) hrun
  exact ⟨hahead.queues,
    fun a s' x sub' payload i hs hx hcarries => hahead.created (step_effect hs) hx hcarries,
    fun k e hk => (Numbered.start _).leavesBroker hrun hk⟩

/-- A durable publish that is fanned out and polled, a replay of its record, and a
publish after the shutdown. -/
def onePublish : List Action :=
  [.call (.subscribe "c" "t" .atLeastOnce none .poll none),
    .publishDurable ⟨"t", .atLeastOnce, [7]⟩, .send 0, .log (.recv 0), .log (.writeBatch .ok),
    .log (.indexBatch 0), .log (.flushFile .ok), .resume 0 0, .call (.poll 0 1),
    .replayFromWal none, .replayNext 0 0, .call .beginShutdown,
    .publishDurable ⟨"t", .atLeastOnce, [8]⟩]

end Runs

/-- The polled message has its record, and the refused publish has done nothing. -/
theorem log_ahead_of_queues_polled :
    Wal.openWithConfig Crc32.crc32 Wal.tinyConfig (.directory .empty) = .ok Wal.freshLog ∧
      Wal.freshLog.AtEnd ∧
      ∃ s, run (step plainExternals Crc32.crc32)
          (start .default (Wal.freshLog.start Wal.tinyConfig fun _ => Wal.headerLen)) onePublish =
            some s ∧
        LoggedAs (Wal.Written Crc32.crc32 s.wal) 1 [7] ∧
        Meets (step plainExternals Crc32.crc32) (LeavesBroker plainExternals Crc32.crc32 1)
          (start .default (Wal.freshLog.start Wal.tinyConfig fun _ => Wal.headerLen))
          onePublish := by
  have hend : Wal.freshLog.AtEnd := ⟨Wal.segmentHeader, by decide, by decide⟩
  obtain ⟨s, hs, hreturned, sub, hsub, e, he, hpayload, hid⟩ :
      ∃ s, run (step plainExternals Crc32.crc32)
          (start .default (Wal.freshLog.start Wal.tinyConfig fun _ => Wal.headerLen)) onePublish =
            some s ∧
        s.returned.lookup 1 = some
          (.error (.corruption "write-ahead log not available: broker shutting down")) ∧
        ∃ sub, s.broker.subscribers.lookup 1 = some sub ∧
          ∃ e, sub.queue.inflight.lookup 1 = some e ∧ e.payload = [7] ∧ e.walId = some 1 := by
    decide +kernel
  have h := log_ahead_of_queues Wal.open_empty hend hs
  exact ⟨Wal.open_empty, hend, s, hs, h.1 1 sub [7] 1 hsub ⟨1, e, .inr he, hpayload, hid⟩,
    h.2.2 1 _ hreturned⟩

/-- A record 1000 with a message, in the payload of a longer message. -/
def forged : Bytes := Wal.encodeRecord Crc32.crc32 ⟨1000, [1, 1, 0, 1, 116, 9]⟩

/-- The record of the longer message, cut short by a crash. -/
def tornLog : Dir Bytes := Dir.empty.insert 1 (Wal.segmentHeader ++
  (Wal.encodeRecord Crc32.crc32 ⟨1, [1, 1, 0, 1, 116, 0] ++ forged ++ [0]⟩).take 44)

/-- The record of a durable publish comes over the head of the torn one, a replay
reads on behind it, and the record of a second publish comes over what was read. -/
def publishOverTorn : List Action :=
  [.call (.subscribe "c" "t" .atLeastOnce none .poll none),
    .publishDurable ⟨"t", .atLeastOnce, [7]⟩, .send 0, .log (.recv 0), .log (.writeBatch .ok),
    .log (.indexBatch 0), .log (.flushFile .ok), .resume 0 0,
    .replayFromWal none, .replayNext 0 0, .replayNext 0 0, .replayNext 0 0,
    .publishDurable ⟨"t", .atLeastOnce, [8]⟩, .send 1, .log (.recv 0), .log (.writeBatch .ok)]

/-- **A replayed message without a record**: `open` leaves the bytes of a torn record
behind the end of the log, so that a replay can take them for a record 1000, which is
gone when the log has grown that far. -/
theorem replayed_record_overwritten :
    ∃ o s sub, Wal.openWithConfig Crc32.crc32 .default (.directory tornLog) = .ok o ∧
      run (step plainExternals Crc32.crc32) (start .default (o.start .default fun _ => 0))
        publishOverTorn = some s ∧
      s.broker.subscribers.lookup 1 = some sub ∧ sub.queue.Carries [9] (some 1000) ∧
      ¬ LoggedAs (Wal.Written Crc32.crc32 s.wal) 1000 [9] := by
  let o : Wal.Opened := ⟨tornLog, ∅, 1, 1, Wal.headerLen⟩
  have hopen : Wal.openWithConfig Crc32.crc32 .default (.directory tornLog) = .ok o := rfl
  obtain ⟨s, hs, hnowhere, sub, hsub, e, he, hpayload, hid⟩ :
      ∃ s, run (step plainExternals Crc32.crc32) (start .default (o.start .default fun _ => 0))
          publishOverTorn = some s ∧
        (∀ p ∈ s.wal.contents.files, ∀ n ≤ p.2.length, ¬ leBytes 8 1000 <+: p.2.drop n) ∧
        ∃ sub, s.broker.subscribers.lookup 1 = some sub ∧
          ∃ e, sub.queue.pendingEntries.lookup 3 = some e ∧ e.payload = [9] ∧
            e.walId = some 1000 := by decide +kernel
  refine ⟨o, s, sub, hopen, hs, hsub, ⟨3, e, .inl he, hpayload, hid⟩, ?_⟩
  rintro ⟨r, -, ⟨loc, file, hfile, hheld⟩, hr, -⟩
  -- a record begins with its id
  have hstart : leBytes 8 1000 <+: Wal.encodeRecord Crc32.crc32 r := by
    rw [← hr]
    simp [Wal.encodeRecord, Wal.recordHeader]
  have hprefix := hstart.trans hheld
  refine hnowhere _ (Dir.find?_eq_some.mp hfile) _ ?_ hprefix
  by_contra hbeyond
  rw [List.drop_eq_nil_of_le (Nat.le_of_not_le hbeyond)] at hprefix
  exact absurd (List.prefix_nil.mp hprefix) (by decide)

end BlipMQ.Daemon.WriteAhead
