import BlipMQ.Core.Kept
import BlipMQ.Lib.Run
import BlipMQ.Net.Publish

/-!
# Net — the server and its connections

Frames come in on many connections. A PUBLISH is done with in one step,
through the cache of its connection, unless its message has to be logged
first. Then the connection waits, the others go on, and the message is fanned
out with the answer of the log.
-/

namespace BlipMQ.Core

open Wal (WalError)

/-- `publish_durable` up to its await: the record for the log. -/
def Broker.startDurable (b : Broker) (topic : String) (payload : Bytes) (qos : QoSLevel) :
    Except WalError Bytes :=
  if b.shuttingDown then
    .error (.corruption "write-ahead log not available: broker shutting down")
  else if !b.hasWal then
    .error (.corruption "write-ahead log not configured for broker")
  else (WalEntry.message ⟨topic, qos, payload⟩).encode

/-- `publish_durable` from the answer of the log on. -/
def Broker.finishDurable (E : Externals) (b : Broker) (now : Nat) (topic : String)
    (payload : Bytes) (qos : QoSLevel) : Except WalError Nat → Broker
  | .error _ => b
  | .ok walId => b.publishWithWalId E now topic payload qos (some walId) none

/-- The two halves, with what others do in between. -/
theorem Broker.publishDurable_eq (E : Externals) (b : Broker) (now : Nat) (topic : String)
    (payload : Bytes) (qos : QoSLevel) (awaited : Awaited) :
    (b.publishDurable E now topic payload qos awaited).1 =
      match b.startDurable topic payload qos with
      | .error _ => b
      | .ok _ => (awaited.others.foldl (Broker.act E) b).finishDurable E now topic payload qos
          awaited.answer := by
  unfold publishDurable startDurable
  cases b.shuttingDown with
  | true => rfl
  | false =>
    cases b.hasWal with
    | false => rfl
    | true =>
      simp only [Bool.not_true, Bool.false_eq_true, if_false]
      cases (WalEntry.message ⟨topic, qos, payload⟩).encode with
      | error e => rfl
      | ok record =>
        cases awaited.answer with
        | error e => rfl
        | ok walId => rfl

/-- From `b` to `b'` there are only calls. -/
def Broker.Leads (E : Externals) (b b' : Broker) : Prop :=
  ∃ acts : List BrokerAction, b' = acts.foldl (Broker.act E) b

theorem Broker.Leads.refl (E : Externals) (b : Broker) : b.Leads E b := ⟨[], rfl⟩

theorem Broker.Leads.trans {E : Externals} {b b' b'' : Broker} (h : b.Leads E b')
    (h' : b'.Leads E b'') : b.Leads E b'' := by
  obtain ⟨acts, rfl⟩ := h
  obtain ⟨acts', rfl⟩ := h'
  exact ⟨acts ++ acts', List.foldl_append.symm⟩

/-- What every call keeps. -/
theorem Broker.Leads.invariant {E : Externals} {P : Broker → Prop}
    (hact : ∀ b a, P b → P (b.act E a)) {b b' : Broker} (h : b.Leads E b') (hb : P b) : P b' := by
  obtain ⟨acts, rfl⟩ := h
  exact List.foldlRecOn (motive := P) acts (Broker.act E) hb fun b hb a _ => hact b a hb

theorem Broker.leads_act (E : Externals) (b : Broker) (a : BrokerAction) : b.Leads E (b.act E a) :=
  ⟨[a], rfl⟩

end BlipMQ.Core

namespace BlipMQ.Net

open BlipMQ.Core
open Wal (WalError)

/-! ## The server -/

/-- A connection is in `logging` while its PUBLISH waits for the log. -/
structure Server where
  broker : Broker
  caches : AList fun _ : Nat => PublishTopicCache
  logging : AList fun _ : Nat => PublishPayload × QoSLevel

inductive ServerEvent where
  | subscribe (now : Nat) (log : Log) (connId : Nat) (frame : Frame) (slot : Nat)
  | publish (now connId : Nat) (frame : Frame)
  /-- The log answers the PUBLISH a connection waits with. -/
  | logged (now connId : Nat) (answer : Except WalError Nat)
  /-- Whatever else is done to the broker. -/
  | call (a : BrokerAction)

namespace Server

def new (config : BrokerConfig) (hasWal : Bool) : Server :=
  ⟨(System.new config hasWal).broker, ∅, ∅⟩

def cache (s : Server) (connId : Nat) : PublishTopicCache :=
  (s.caches.lookup connId).getD .default

/-- `handle_publish` up to its await, for a PUBLISH that was turned back. -/
def startLogging (s : Server) (connId : Nat) (frame : Frame) : Server :=
  match checkPublish frame with
  | .error _ => s
  | .ok (payload, qos) =>
    match s.broker.startDurable payload.topicStr payload.message qos with
    | .error _ => s
    | .ok _ => { s with logging := s.logging.insert connId (payload, qos) }

/-- The next PUBLISH of a connection is read when the last one is done with. -/
def step (E : Externals) (s : Server) : ServerEvent → Option Server
  | .subscribe now log connId frame slot =>
    some { s with broker := (handleSubscribeSlot E now log s.broker connId frame slot).1 }
  | .publish now connId frame =>
    match s.logging.lookup connId with
    | some _ => none
    | none =>
      match handlePublishFast E s.broker now frame (s.cache connId) with
      | (_, .error (.io .unsupported _)) => some (s.startLogging connId frame)
      | ((b, cache), _) => some { s with broker := b, caches := s.caches.insert connId cache }
  | .logged now connId answer =>
    match s.logging.lookup connId with
    | none => none
    | some (payload, qos) => some { s with
        broker := s.broker.finishDurable E now payload.topicStr payload.message qos answer
        logging := s.logging.erase connId }
  | .call a => some { s with broker := s.broker.act E a }

/-! ### What is fanned out -/

end Server

/-- The fan-out of an accepted PUBLISH, with the broker before and after it. -/
structure Fanout where
  payload : PublishPayload
  qos : QoSLevel
  walId : Option Nat
  before : Broker
  after : Broker

namespace Fanout

def topic (f : Fanout) : String := f.payload.topicStr

def offer (f : Fanout) : Offer := ⟨f.walId, f.topic, f.payload.message, f.qos⟩

/-- The key the fan-out gets to see. -/
def routingKey (f : Fanout) : Option Bytes :=
  if f.walId.isSome then none else f.payload.partitionKey

end Fanout

namespace Server

/-- The message that an event fans out, with its id in the log. -/
def published (s : Server) : ServerEvent → Option (PublishPayload × QoSLevel × Option Nat)
  | .publish _ connId frame =>
    match s.logging.lookup connId, checkPublish frame with
    | none, .ok (payload, qos) =>
      if qos = .atLeastOnce && s.broker.hasWal then none else some (payload, qos, none)
    | _, _ => none
  | .logged _ connId (.ok walId) =>
    (s.logging.lookup connId).map fun m => (m.1, m.2, some walId)
  | _ => none

def fanouts (E : Externals) (s : Server) (e : ServerEvent) : List Fanout :=
  match s.published e, s.step E e with
  | some (payload, qos, walId), some s' => [⟨payload, qos, walId, s.broker, s'.broker⟩]
  | _, _ => []

/-! ## What holds of the server -/

/-- The broker has come about by calls on it, the caches are right about it, and
what waits for the log has to be logged. -/
structure Sound (E : Externals) (config : BrokerConfig) (hasWal : Bool) (s : Server) : Prop where
  reachable : (System.new config hasWal).broker.Leads E s.broker
  caches : ∀ c cache, s.caches.lookup c = some cache → cache.Valid s.broker
  logging : ∀ c payload qos, s.logging.lookup c = some (payload, qos) →
    (qos = .atLeastOnce ∧ hasWal = true) ∧ ∃ frame, checkPublish frame = .ok (payload, qos)

variable {E : Externals} {config : BrokerConfig} {hasWal : Bool} {s s' : Server}

theorem Sound.new (E : Externals) (config : BrokerConfig) (hasWal : Bool) :
    (new config hasWal).Sound E config hasWal where
  reachable := .refl E _
  caches _ _ h := by cases h
  logging _ _ _ h := by cases h

theorem Sound.handles (h : s.Sound E config hasWal) : s.broker.Handles :=
  h.reachable.invariant (fun _ a hb => hb.act a) (System.handles_run E config hasWal [])

theorem Sound.hasWal_eq (h : s.Sound E config hasWal) : s.broker.hasWal = hasWal := by
  have hnew : (System.new config hasWal).broker.hasWal = hasWal := rfl
  exact h.reachable.invariant (P := fun b => b.hasWal = hasWal)
    (fun b a hb => (Broker.act_hasWal a).trans hb) hnew

theorem Sound.cache_valid (h : s.Sound E config hasWal) (connId : Nat) :
    (s.cache connId).Valid s.broker := by
  unfold cache
  cases hc : s.caches.lookup connId with
  | none => exact .default s.broker
  | some cache => exact h.caches connId cache hc

/-! ### Steps -/

theorem Sound.leads (h : s.Sound E config hasWal) {b : Broker} (hleads : s.broker.Leads E b) :
    ({ s with broker := b } : Server).Sound E config hasWal where
  reachable := h.reachable.trans hleads
  caches c cache hc := by
    obtain ⟨acts, rfl⟩ := hleads
    exact (h.caches c cache hc).run acts
  logging := h.logging

theorem Sound.insertCache (h : s.Sound E config hasWal) {cache : PublishTopicCache}
    (hvalid : cache.Valid s.broker) (connId : Nat) :
    ({ s with caches := s.caches.insert connId cache } : Server).Sound E config hasWal :=
  { h with caches := forall_lookup_insert h.caches hvalid }

variable {frame : Frame}

theorem Sound.startLogging (h : s.Sound E config hasWal) {payload : PublishPayload}
    {qos : QoSLevel} (hcheck : checkPublish frame = .ok (payload, qos))
    (hdurable : (qos = .atLeastOnce && s.broker.hasWal) = true) (connId : Nat) :
    (s.startLogging connId frame).Sound E config hasWal ∧
      (s.startLogging connId frame).broker = s.broker := by
  unfold Server.startLogging
  rw [hcheck]
  dsimp only
  split
  · exact ⟨h, rfl⟩
  · refine ⟨{ h with logging := ?_ }, rfl⟩
    rw [h.hasWal_eq, Bool.and_eq_true, decide_eq_true_iff] at hdurable
    intro c payload' qos' hc
    rcases lookup_insert_eq_some.mp hc with ⟨-, heq⟩ | ⟨-, hold⟩
    · cases heq
      exact ⟨hdurable, frame, hcheck⟩
    · exact h.logging c payload' qos' hold

theorem leads_publishNow (E : Externals) (b : Broker) (now : Nat) (payload : PublishPayload)
    (qos : QoSLevel) : b.Leads E (publishNow E b now payload qos) :=
  b.leads_act E (.publish now none ⟨none, payload.topicStr, payload.message, qos⟩
    payload.ttlOverride payload.partitionKey)

/-- A PUBLISH is fanned out at once or leaves the broker as it is. -/
theorem Sound.publish (h : s.Sound E config hasWal) {now connId : Nat}
    (hstep : s.step E (.publish now connId frame) = some s') :
    s'.Sound E config hasWal ∧
      ((s.published (.publish now connId frame) = none ∧ s'.broker = s.broker) ∨
        ∃ payload qos, checkPublish frame = .ok (payload, qos) ∧
          (qos = .atLeastOnce && hasWal) = false ∧
          s.published (.publish now connId frame) = some (payload, qos, none) ∧
          s'.broker = publishNow E s.broker now payload qos) := by
  have hcache := h.cache_valid connId
  unfold step at hstep
  unfold published
  dsimp only at hstep ⊢
  cases hidle : s.logging.lookup connId with
  | some m =>
    rw [hidle] at hstep
    cases hstep
  | none =>
    rw [hidle] at hstep
    dsimp only at hstep ⊢
    cases hcheck : checkPublish frame with
    | error reason =>
      have hfast : handlePublishFast E s.broker now frame (s.cache connId) =
          ((s.broker, s.cache connId), (nack frame 400 reason).map some) := by
        unfold handlePublishFast
        rw [hcheck]
      rw [hfast] at hstep
      cases hnack : nack frame 400 reason with
      | error e =>
        obtain ⟨f, rfl⟩ := nack_error hnack
        rw [hnack] at hstep
        cases hstep
        exact ⟨h.insertCache hcache connId, .inl ⟨rfl, rfl⟩⟩
      | ok f =>
        rw [hnack] at hstep
        cases hstep
        exact ⟨h.insertCache hcache connId, .inl ⟨rfl, rfl⟩⟩
    | ok out =>
      obtain ⟨payload, qos⟩ := out
      dsimp only
      cases hsync : (qos = .atLeastOnce && s.broker.hasWal : Bool) with
      | true =>
        rw [handlePublishFast_durable hcheck hsync] at hstep
        cases hstep
        obtain ⟨hsound, hbroker⟩ := h.startLogging hcheck hsync connId
        exact ⟨hsound, .inl ⟨rfl, hbroker⟩⟩
      | false =>
        rw [handlePublishFast_sync hcache h.handles hcheck hsync] at hstep
        cases hstep
        have hanswer := (hcache.getWithResolve payload.topic).valid
        have hsound := (h.insertCache hanswer connId).leads
          (leads_publishNow E s.broker now payload qos)
        rw [h.hasWal_eq] at hsync
        exact ⟨hsound, .inr ⟨payload, qos, rfl, hsync, rfl, rfl⟩⟩

theorem leads_handleSubscribeSlot (E : Externals) (now : Nat) (log : Log) (b : Broker)
    (connId : Nat) (frame : Frame) (slot : Nat) :
    b.Leads E (handleSubscribeSlot E now log b connId frame slot).1 := by
  rcases handleSubscribeSlot_cases E now log b connId frame slot with
    hsame | ⟨payload, qos, -, -, hplain | ⟨offset, hreplayed⟩⟩
  · exact ⟨[], hsame⟩
  · exact ⟨[.subscribe _ _ _ _ _ _], hplain⟩
  · exact ⟨[.subscribe _ _ _ _ _ _, .replayToSubscriber now log _ offset], hreplayed⟩

theorem leads_finishDurable (E : Externals) (b : Broker) (now : Nat) (topic : String)
    (payload : Bytes) (qos : QoSLevel) (answer : Except WalError Nat) :
    b.Leads E (b.finishDurable E now topic payload qos answer) := by
  cases answer with
  | error e => exact .refl E b
  | ok walId => exact b.leads_act E (.publish now none ⟨some walId, topic, payload, qos⟩ none none)

/-- Whatever happens to the server, its broker sees calls only. -/
theorem Sound.step (h : s.Sound E config hasWal) {e : ServerEvent}
    (hstep : s.step E e = some s') :
    s'.Sound E config hasWal ∧ s.broker.Leads E s'.broker := by
  cases e with
  | subscribe now log connId frame slot =>
    cases hstep
    have hleads := leads_handleSubscribeSlot E now log s.broker connId frame slot
    exact ⟨h.leads hleads, hleads⟩
  | publish now connId frame =>
    obtain ⟨hsound, ⟨-, hbroker⟩ | ⟨payload, qos, -, -, -, hbroker⟩⟩ := h.publish hstep
    · rw [hbroker]
      exact ⟨hsound, .refl E _⟩
    · rw [hbroker]
      exact ⟨hsound, leads_publishNow ..⟩
  | logged now connId answer =>
    unfold Server.step at hstep
    dsimp only at hstep
    cases hwaiting : s.logging.lookup connId with
    | none =>
      rw [hwaiting] at hstep
      cases hstep
    | some m =>
      rw [hwaiting] at hstep
      cases hstep
      have herase : ({ s with logging := s.logging.erase connId } : Server).Sound E config hasWal :=
        { h with
          logging := fun c payload qos hc =>
            h.logging c payload qos (lookup_erase_eq_some.mp hc).2 }
      have hleads := leads_finishDurable E s.broker now m.1.topicStr m.1.message m.2 answer
      exact ⟨herase.leads hleads, hleads⟩
  | call a =>
    cases hstep
    exact ⟨h.leads (s.broker.leads_act E a), s.broker.leads_act E a⟩

theorem Sound.run (h : s.Sound E config hasWal) {events : List ServerEvent}
    (hrun : BlipMQ.run (Server.step E) s events = some s') :
    s'.Sound E config hasWal ∧ s.broker.Leads E s'.broker := by
  refine run_invariant (P := fun t => t.Sound E config hasWal ∧ s.broker.Leads E t.broker) ?_
    ⟨h, .refl E _⟩ hrun
  rintro t e t' ⟨ht, hleads⟩ hstep
  obtain ⟨ht', hleads'⟩ := ht.step hstep
  exact ⟨ht', hleads.trans hleads'⟩

/-! ### A PUBLISH that waits -/

theorem run_calls (E : Externals) (s : Server) (acts : List BrokerAction) :
    BlipMQ.run (Server.step E) s (acts.map .call) =
      some { s with broker := acts.foldl (Broker.act E) s.broker } := by
  induction acts generalizing s with
  | nil => rfl
  | cons a acts ih => exact ih { s with broker := s.broker.act E a }

/-- The steps of a PUBLISH that is logged, with the calls of others while it waits,
are what the handler does over its await. -/
theorem run_logged {started now connId : Nat} {payload : PublishPayload} {qos : QoSLevel}
    {record : Bytes} (hidle : s.logging.lookup connId = none)
    (hcheck : checkPublish frame = .ok (payload, qos))
    (hdurable : (qos = .atLeastOnce && s.broker.hasWal) = true)
    (hrecord : s.broker.startDurable payload.topicStr payload.message qos = .ok record)
    (awaited : Awaited) :
    ∃ s', BlipMQ.run (Server.step E) s (.publish started connId frame ::
        (awaited.others.map .call ++ [.logged now connId awaited.answer])) = some s' ∧
      s'.broker = (handlePublish E s.broker now frame awaited).1 := by
  have hstart : s.step E (.publish started connId frame) =
      some { s with logging := s.logging.insert connId (payload, qos) } := by
    unfold Server.step Server.startLogging
    simp only [hidle, handlePublishFast_durable hcheck hdurable, hcheck, hrecord]
  have hfinish : ∀ b : Broker, Server.step E
      { s with broker := b, logging := s.logging.insert connId (payload, qos) }
        (.logged now connId awaited.answer) = some { s with
      broker := b.finishDurable E now payload.topicStr payload.message qos awaited.answer
      logging := (s.logging.insert connId (payload, qos)).erase connId } := by
    intro b
    unfold Server.step
    dsimp only
    rw [AList.lookup_insert]
  refine ⟨_, run_cons.mpr ⟨_, hstart, run_append.mpr ⟨_, run_calls E _ _, run_cons.mpr
    ⟨_, hfinish _, rfl⟩⟩⟩, ?_⟩
  rw [handlePublish_durable hcheck hdurable, Broker.publishDurable_eq, hrecord]

end Server

/-! ## Every fan-out -/

/-- What is fanned out was accepted, has been logged if it had to be, and goes
through `publish_inner`: with its key if it was not logged, without it if it was. -/
structure Fanout.Spec (E : Externals) (hasWal : Bool) (f : Fanout) : Prop where
  accepted : ∃ frame, checkPublish frame = .ok (f.payload, f.qos)
  logged : f.walId.isSome = (f.qos = .atLeastOnce && hasWal)
  published : ∃ now ttl, f.after = f.before.publishInner E now none f.offer ttl f.routingKey

namespace Server

variable {E : Externals} {config : BrokerConfig} {hasWal : Bool} {s s' : Server} {f : Fanout}

theorem mem_fanouts {e : ServerEvent} (hf : f ∈ s.fanouts E e) :
    ∃ s', s.step E e = some s' ∧ s.published e = some (f.payload, f.qos, f.walId) ∧
      f.before = s.broker ∧ f.after = s'.broker := by
  unfold fanouts at hf
  split at hf
  · rename_i payload qos walId s' hpublished hstep
    rw [List.mem_singleton] at hf
    subst hf
    exact ⟨s', hstep, hpublished, rfl, rfl⟩
  · exact absurd hf List.not_mem_nil

theorem Sound.fanout (h : s.Sound E config hasWal) {e : ServerEvent} (hf : f ∈ s.fanouts E e) :
    f.Spec E hasWal ∧ f.before = s.broker := by
  obtain ⟨s', hstep, hpublished, hbefore, hafter⟩ := mem_fanouts hf
  refine ⟨?_, hbefore⟩
  cases e with
  | subscribe now log connId frame slot => cases hpublished
  | call a => cases hpublished
  | publish now connId frame =>
    obtain ⟨-, ⟨hnone, -⟩ | ⟨payload, qos, hcheck, hsync, hsome, hbroker⟩⟩ := h.publish hstep
    · rw [hnone] at hpublished
      cases hpublished
    · rw [hsome] at hpublished
      obtain ⟨payload', qos', walId, before, after⟩ := f
      cases hpublished
      cases hbefore
      exact ⟨⟨frame, hcheck⟩, hsync.symm, now, payload'.ttlOverride, hafter.trans hbroker⟩
  | logged now connId answer =>
    cases answer with
    | error e => cases hpublished
    | ok walId =>
      obtain ⟨⟨payload, qos⟩, hwaiting, hm⟩ := Option.map_eq_some_iff.mp hpublished
      obtain ⟨payload', qos', walId', before, after⟩ := f
      cases hm
      cases hbefore
      obtain ⟨⟨rfl, rfl⟩, hframe⟩ := h.logging connId payload qos hwaiting
      unfold Server.step at hstep
      dsimp only at hstep
      rw [hwaiting] at hstep
      cases hstep
      exact ⟨hframe, rfl, now, none, hafter⟩

/-- **Every fan-out of every run** comes about by calls on the broker the run
begins with. -/
theorem Sound.fanouts_run (h : s.Sound E config hasWal) {events : List ServerEvent}
    (hf : f ∈ outputs (Server.step E) (Server.fanouts E) s events) :
    f.Spec E hasWal ∧ s.broker.Leads E f.before := by
  obtain ⟨before, e, after, t, -, hrun, hout⟩ := mem_outputs hf
  obtain ⟨ht, hleads⟩ := h.run hrun
  obtain ⟨hspec, hbefore⟩ := ht.fanout hout
  exact ⟨hspec, hbefore ▸ hleads⟩

end Server

end BlipMQ.Net
