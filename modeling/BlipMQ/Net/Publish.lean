import BlipMQ.Core.Handles
import BlipMQ.Lib.Machine
import BlipMQ.Net.Handler

/-!
# Net — the two paths of a PUBLISH

A PUBLISH is first tried on the synchronous path, which publishes through a
handle that the connection keeps for the topic it published to last. A
message that has to be logged first is turned back from there, before
anything has happened, and takes the asynchronous path. Both paths answer
alike and leave the same broker.
-/

namespace BlipMQ.Net

open BlipMQ.Core
open Wal (WalError)

/-! ## The cache -/

structure PublishTopicCache where
  lastBytes : Option Bytes
  lastTopic : Option String
  lastResolved : Option ResolvedTopic
  deriving DecidableEq, Repr

namespace PublishTopicCache

def default : PublishTopicCache := ⟨none, none, none⟩

/-- Another topic than the last one: its name is made and resolved once. -/
def resolveNew (topicBytes : Bytes) (resolver : String → Option ResolvedTopic) :
    PublishTopicCache × String × Option ResolvedTopic :=
  let newTopic := (fromUtf8 topicBytes).getD ""
  let resolved := resolver newTopic
  (⟨some topicBytes, some newTopic, resolved⟩, newTopic, resolved)

def getWithResolve (cache : PublishTopicCache) (topicBytes : Bytes)
    (resolver : String → Option ResolvedTopic) :
    PublishTopicCache × String × Option ResolvedTopic :=
  match cache.lastBytes, cache.lastTopic with
  | some prevBytes, some prevTopic =>
    if prevBytes = topicBytes then
      match cache.lastResolved with
      | some resolved => (cache, prevTopic, some resolved)
      | none =>
        -- a subscriber may have appeared since
        let resolved := resolver prevTopic
        let cache := if resolved.isSome then { cache with lastResolved := resolved } else cache
        (cache, prevTopic, resolved)
    else resolveNew topicBytes resolver
  | _, _ => resolveNew topicBytes resolver

end PublishTopicCache

/-! ## The handlers -/

/-- What the checks of a PUBLISH leave: a reason for a NACK, or what to publish. -/
def checkPublish (frame : Frame) : Except String (PublishPayload × QoSLevel) :=
  match PublishPayload.decode frame.payload with
  | .error _ => .error "invalid PUBLISH payload"
  | .ok payload =>
    match validateTopic payload.topicStr with
    | some reason => .error reason
    | none =>
      match qosFromU8 payload.qos with
      | none => .error "invalid QoS value"
      | some qos => .ok (payload, qos)

def nack (frame : Frame) (code : Nat) (message : String) : Except Error Frame :=
  (makeNack frame.correlationId code message).mapError .frameEncode

/-- `Duration::from_millis`, in nanoseconds. -/
def PublishPayload.ttlOverride (p : PublishPayload) : Option Nat := p.ttlMs.map (· * 10 ^ 6)

/-- The text of a log error. -/
def walErrorText : WalError → String
  | .io reason => "I/O error: " ++ reason
  | .backpressure reason => "wal overload: " ++ reason
  | .writerStopped => "wal writer stopped"
  | .invalidConfig reason => "invalid wal config: " ++ reason
  | .corruption reason => "log corruption: " ++ reason

/-- A client can tell overload, which passes, from a failure. -/
def durableNack (e : WalError) : Nat × String :=
  match e with
  | .backpressure _ => (503, "wal_busy")
  | .writerStopped => (503, "wal_writer_stopped")
  | _ => (500, "durable_publish_failed")

/-- The asynchronous path. -/
def handlePublish (E : Externals) (b : Broker) (now : Nat) (frame : Frame) (awaited : Awaited) :
    Broker × Except Error FrameResponse :=
  match checkPublish frame with
  | .error reason => (b, (nack frame 400 reason).map .frame)
  | .ok (payload, qos) =>
    let topic := payload.topicStr
    let ttl := payload.ttlOverride
    if qos = .atLeastOnce && b.hasWal then
      -- the TTL and the key of a logged message are not looked at
      match b.publishDurable E now topic payload.message qos awaited with
      | (b, .error e) =>
        let (code, label) := durableNack e
        (b, (nack frame code (label ++ ": " ++ walErrorText e)).map .frame)
      | (b, .ok _) => (b, .ok .none)
    else if payload.partitionKey.isSome then
      (b.publishWithKey E now topic payload.message qos ttl payload.partitionKey, .ok .none)
    else if ttl.isSome then (b.publishWithTtl E now topic payload.message qos ttl, .ok .none)
    else (b.publish E now topic payload.message qos, .ok .none)

/-- The synchronous path. -/
def handlePublishFast (E : Externals) (b : Broker) (now : Nat) (frame : Frame)
    (cache : PublishTopicCache) : (Broker × PublishTopicCache) × Except Error (Option Frame) :=
  match checkPublish frame with
  | .error reason => ((b, cache), (nack frame 400 reason).map some)
  | .ok (payload, qos) =>
    if qos = .atLeastOnce && b.hasWal then
      ((b, cache), .error (.io .unsupported "qos1_durable_requires_async"))
    else
      let (cache, topic, resolved) := cache.getWithResolve payload.topic b.resolveTopic
      let ttl := payload.ttlOverride
      let b := match resolved, payload.partitionKey with
        | some r, none =>
          match ttl with
          | some ttl => b.publishResolvedWithTtl E now topic r payload.message qos (some ttl)
          | none => b.publishResolved E now topic r payload.message qos
        | some r, some key =>
          b.publishResolvedWithOptions E now topic r payload.message qos ttl (some key)
        | none, key => b.publishWithKey E now topic payload.message qos ttl key
      ((b, cache), .ok none)

/-- What the reader does with a PUBLISH: the synchronous path, and the other one
if it is turned back. -/
def publishFrame (E : Externals) (b : Broker) (now : Nat) (frame : Frame)
    (cache : PublishTopicCache) (awaited : Awaited) :
    (Broker × PublishTopicCache) × Except Error (Option Frame) :=
  match handlePublishFast E b now frame cache with
  | ((b, cache), .error (.io .unsupported _)) =>
    let out := handlePublish E b now frame awaited
    ((out.1, cache), out.2.map FrameResponse.toOption)
  | out => out

/-! ## What the cache holds -/

/-- The cached name is the text of the cached bytes, and the cached handle is the
one the registry has for it. -/
structure PublishTopicCache.Valid (cache : PublishTopicCache) (b : Broker) : Prop where
  name : ∀ bytes topic, cache.lastBytes = some bytes → cache.lastTopic = some topic →
    topic = (fromUtf8 bytes).getD ""
  handle : ∀ topic r, cache.lastTopic = some topic → cache.lastResolved = some r →
    b.resolveTopic topic = some r

namespace PublishTopicCache

variable {cache : PublishTopicCache} {E : Externals} {b : Broker}

theorem Valid.default (b : Broker) : PublishTopicCache.default.Valid b := ⟨nofun, nofun⟩

/-- Records stay, so a cached handle survives whatever happens to the broker. -/
theorem Valid.run (h : cache.Valid b) (acts : List BrokerAction) :
    cache.Valid (acts.foldl (Broker.act E) b) :=
  ⟨h.name, fun topic r ht hr => Broker.resolveTopic_run (h.handle topic r ht hr) acts⟩

/-- Cached or not, the answer is the name of the bytes and its handle in the
registry. -/
structure Answers (b : Broker) (bytes : Bytes)
    (out : PublishTopicCache × String × Option ResolvedTopic) : Prop where
  valid : out.1.Valid b
  name : out.2.1 = (fromUtf8 bytes).getD ""
  handle : out.2.2 = b.resolveTopic out.2.1

theorem resolveNew_answers (b : Broker) (bytes : Bytes) :
    Answers b bytes (resolveNew bytes b.resolveTopic) := by
  refine ⟨⟨?_, ?_⟩, rfl, rfl⟩
  · rintro _ _ ⟨⟩ ⟨⟩
    rfl
  · rintro _ r ⟨⟩ hr
    exact hr

theorem Valid.getWithResolve (h : cache.Valid b) (bytes : Bytes) :
    Answers b bytes (cache.getWithResolve bytes b.resolveTopic) := by
  unfold PublishTopicCache.getWithResolve
  split
  · rename_i prevBytes prevTopic hbytes htopic
    split
    · rename_i heq
      have hname : prevTopic = (fromUtf8 bytes).getD "" := heq ▸ h.name _ _ hbytes htopic
      split
      · rename_i r hr
        exact ⟨h, hname, (h.handle _ r htopic hr).symm⟩
      · refine ⟨?_, hname, rfl⟩
        dsimp only
        split
        · refine ⟨h.name, fun topic r ht hr => ?_⟩
          change cache.lastTopic = some topic at ht
          rw [htopic] at ht
          cases ht
          exact hr
        · exact h
    · exact resolveNew_answers b bytes
  · exact resolveNew_answers b bytes

end PublishTopicCache

/-! ## The paths agree -/

section Agree

variable {E : Externals} {b : Broker} {now : Nat} {frame : Frame} {awaited : Awaited}
  {cache : PublishTopicCache} {payload : PublishPayload} {qos : QoSLevel}

/-- What a PUBLISH that is not logged comes down to. -/
def publishNow (E : Externals) (b : Broker) (now : Nat) (payload : PublishPayload)
    (qos : QoSLevel) : Broker :=
  b.publishInner E now none ⟨none, payload.topicStr, payload.message, qos⟩ payload.ttlOverride
    payload.partitionKey

theorem checkPublish_eq_ok (h : checkPublish frame = .ok (payload, qos)) :
    PublishPayload.decode frame.payload = .ok payload ∧ validateTopic payload.topicStr = none ∧
      qosFromU8 payload.qos = some qos := by
  unfold checkPublish at h
  split at h
  · cases h
  · rename_i p hdecode
    split at h
    · cases h
    · rename_i hvalid
      split at h
      · cases h
      · rename_i q hqos
        cases h
        exact ⟨hdecode, hvalid, hqos⟩

theorem handlePublish_sync (hcheck : checkPublish frame = .ok (payload, qos))
    (hsync : (qos = .atLeastOnce && b.hasWal) = false) :
    handlePublish E b now frame awaited = (publishNow E b now payload qos, .ok .none) := by
  unfold handlePublish
  simp only [hcheck, hsync, Bool.false_eq_true, if_false]
  unfold publishNow
  cases hkey : payload.partitionKey with
  | some key => rfl
  | none =>
    cases httl : payload.ttlOverride with
    | some ttl => rfl
    | none => rfl

theorem handlePublishFast_sync (hvalid : cache.Valid b) (hhandles : b.Handles)
    (hcheck : checkPublish frame = .ok (payload, qos))
    (hsync : (qos = .atLeastOnce && b.hasWal) = false) :
    handlePublishFast E b now frame cache =
      ((publishNow E b now payload qos,
        (cache.getWithResolve payload.topic b.resolveTopic).1), .ok none) := by
  have hanswer := hvalid.getWithResolve payload.topic
  unfold handlePublishFast
  simp only [hcheck, hsync, Bool.false_eq_true, if_false]
  generalize cache.getWithResolve payload.topic b.resolveTopic = out at hanswer ⊢
  obtain ⟨cache', topic, resolved⟩ := out
  have hname : topic = payload.topicStr := hanswer.name
  have hhandle : resolved = b.resolveTopic topic := hanswer.handle
  have hpublish : ∀ ttl key, b.publishInner E now resolved
      ⟨none, topic, payload.message, qos⟩ ttl key =
      b.publishInner E now none ⟨none, topic, payload.message, qos⟩ ttl key := by
    intro ttl key
    cases hr : resolved with
    | none => rfl
    | some r => exact Broker.publishInner_resolved hhandles (hhandle.symm.trans hr) now ttl key
  rw [publishNow, ← hname, ← hpublish]
  clear hpublish hhandle hanswer
  -- each of the four entry points is `publishInner` with the handle
  cases resolved <;> cases payload.partitionKey <;> cases payload.ttlOverride <;> rfl

theorem handlePublishFast_durable (hcheck : checkPublish frame = .ok (payload, qos))
    (hdurable : (qos = .atLeastOnce && b.hasWal) = true) :
    handlePublishFast E b now frame cache =
      ((b, cache), .error (.io .unsupported "qos1_durable_requires_async")) := by
  unfold handlePublishFast
  simp only [hcheck, hdurable, if_true]

theorem nack_error {code : Nat} {message : String} {e : Error}
    (h : nack frame code message = .error e) : ∃ f, e = .frameEncode f := by
  unfold nack at h
  cases hmake : makeNack frame.correlationId code message with
  | error f =>
    rw [hmake] at h
    cases h
    exact ⟨f, rfl⟩
  | ok f =>
    rw [hmake] at h
    cases h

/-- Turned back, the synchronous path has done nothing. -/
theorem handlePublishFast_unsupported {message : String}
    (h : (handlePublishFast E b now frame cache).2 = .error (.io .unsupported message)) :
    (handlePublishFast E b now frame cache).1 = (b, cache) := by
  unfold handlePublishFast at h ⊢
  split at h
  · rfl
  · split at h
    · rename_i hdurable
      simp only [hdurable, if_true]
    · cases h

/-- One PUBLISH, through the cache and without it. -/
theorem publishFrame_eq (hvalid : cache.Valid b) (hhandles : b.Handles) :
    (publishFrame E b now frame cache awaited).1.1 = (handlePublish E b now frame awaited).1 ∧
    (publishFrame E b now frame cache awaited).2 =
      (handlePublish E b now frame awaited).2.map FrameResponse.toOption ∧
    (publishFrame E b now frame cache awaited).1.2.Valid b := by
  cases hcheck : checkPublish frame with
  | error reason =>
    unfold publishFrame handlePublishFast handlePublish
    simp only [hcheck]
    cases hnack : nack frame 400 reason with
    | error e =>
      obtain ⟨f, rfl⟩ := nack_error hnack
      exact ⟨rfl, rfl, hvalid⟩
    | ok f => exact ⟨rfl, rfl, hvalid⟩
  | ok out =>
    obtain ⟨payload, qos⟩ := out
    cases hsync : (qos = .atLeastOnce && b.hasWal : Bool) with
    | true =>
      unfold publishFrame
      rw [handlePublishFast_durable hcheck hsync]
      exact ⟨rfl, rfl, hvalid⟩
    | false =>
      unfold publishFrame
      rw [handlePublishFast_sync hvalid hhandles hcheck hsync, handlePublish_sync hcheck hsync]
      exact ⟨rfl, rfl, (hvalid.getWithResolve payload.topic).valid⟩

theorem handlePublish_durable (hcheck : checkPublish frame = .ok (payload, qos))
    (hdurable : (qos = .atLeastOnce && b.hasWal) = true) :
    (handlePublish E b now frame awaited).1 =
      (b.publishDurable E now payload.topicStr payload.message qos awaited).1 := by
  unfold handlePublish
  simp only [hcheck, hdurable, if_true]
  split <;> rename_i heq <;> rw [heq]

/-- A PUBLISH is a sequence of calls on the broker. -/
theorem handlePublish_acts (E : Externals) (b : Broker) (now : Nat) (frame : Frame)
    (awaited : Awaited) :
    ∃ acts : List BrokerAction,
      (handlePublish E b now frame awaited).1 = acts.foldl (Broker.act E) b := by
  cases hcheck : checkPublish frame with
  | error reason =>
    refine ⟨[], ?_⟩
    unfold handlePublish
    rw [hcheck]
    rfl
  | ok out =>
    obtain ⟨payload, qos⟩ := out
    cases hsync : (qos = .atLeastOnce && b.hasWal : Bool) with
    | false =>
      refine ⟨[.publish now none ⟨none, payload.topicStr, payload.message, qos⟩
        payload.ttlOverride payload.partitionKey], ?_⟩
      rw [handlePublish_sync hcheck hsync]
      rfl
    | true =>
      rw [handlePublish_durable hcheck hsync]
      unfold Broker.publishDurable
      split
      · exact ⟨[], rfl⟩
      · split
        · exact ⟨[], rfl⟩
        · split
          · exact ⟨[], rfl⟩
          · split
            · exact ⟨awaited.others, rfl⟩
            · rename_i walId hanswer
              refine ⟨awaited.others ++ [.publish now none
                ⟨some walId, payload.topicStr, payload.message, qos⟩ none none], ?_⟩
              rw [List.foldl_append]
              rfl

end Agree

/-! ## Runs -/

/-- A PUBLISH on the connection, or a call on the broker from elsewhere. -/
inductive PublishEvent where
  | publish (now : Nat) (frame : Frame) (awaited : Awaited)
  | other (a : BrokerAction)

/-- The connection with its cache. -/
def cachedStep (E : Externals) (s : Broker × PublishTopicCache) :
    PublishEvent → (Broker × PublishTopicCache) × Option (Except Error (Option Frame))
  | .publish now frame awaited =>
    let out := publishFrame E s.1 now frame s.2 awaited
    (out.1, some out.2)
  | .other a => ((s.1.act E a, s.2), none)

/-- The connection if it only had the asynchronous path. -/
def asyncStep (E : Externals) (b : Broker) :
    PublishEvent → Broker × Option (Except Error (Option Frame))
  | .publish now frame awaited =>
    let out := handlePublish E b now frame awaited
    (out.1, some (out.2.map FrameResponse.toOption))
  | .other a => (b.act E a, none)

/-- The brokers are the same, and the cache is right about them. -/
structure InStep (s : Broker × PublishTopicCache) (b : Broker) : Prop where
  broker : s.1 = b
  handles : b.Handles
  valid : s.2.Valid b

theorem InStep.step {E : Externals} {s : Broker × PublishTopicCache} {b : Broker} (h : InStep s b)
    (e : PublishEvent) :
    InStep (cachedStep E s e).1 (asyncStep E b e).1 ∧
      (cachedStep E s e).2 = (asyncStep E b e).2 := by
  obtain ⟨b', cache⟩ := s
  obtain ⟨rfl, hhandles, hvalid⟩ := h
  cases e with
  | publish now frame awaited =>
    obtain ⟨hbroker, hresponse, hkept⟩ :=
      publishFrame_eq (E := E) hvalid hhandles
    obtain ⟨acts, hacts⟩ := handlePublish_acts E b' now frame awaited
    refine ⟨⟨hbroker, ?_, ?_⟩, congrArg some hresponse⟩
    · show (handlePublish E b' now frame awaited).1.Handles
      rw [hacts]
      exact hhandles.run acts
    · show PublishTopicCache.Valid _ (handlePublish E b' now frame awaited).1
      rw [hacts]
      exact hkept.run acts
  | other a =>
    exact ⟨⟨rfl, hhandles.act a, hvalid.run [a]⟩, rfl⟩

/-- **The synchronous path agrees with the asynchronous one**: over any sequence
of PUBLISH frames on a connection and calls on the broker from elsewhere, the
responses are the same and so is the broker; and a frame that is turned back
has changed neither the broker nor the cache. -/
theorem fast_path_agrees (E : Externals) (config : BrokerConfig) (hasWal : Bool)
    (setup : List BrokerAction) (events : List PublishEvent) :
    let b := ((System.new config hasWal).run E setup).broker
    let fast := exec (cachedStep E) (b, PublishTopicCache.default) events
    let async := exec (asyncStep E) b events
    fast.2 = async.2 ∧ fast.1.1 = async.1 ∧
      ∀ (b : Broker) (cache : PublishTopicCache) (now : Nat) (frame : Frame) (message : String),
        (handlePublishFast E b now frame cache).2 = .error (.io .unsupported message) →
          (handlePublishFast E b now frame cache).1 = (b, cache) := by
  intro b fast async
  have hstart : InStep (b, PublishTopicCache.default) b :=
    ⟨rfl, System.handles_run E config hasWal setup, .default b⟩
  obtain ⟨hend, hresponses⟩ :=
    exec_lockstep (R := InStep) (fun _ _ e h => h.step (E := E) e) hstart events
  exact ⟨hresponses, hend.broker, fun b cache now frame message => handlePublishFast_unsupported⟩

/-- A QoS1 message on a broker with a log is turned back. -/
theorem fast_path_agrees_turned_back :
    let b := ((System.new .default true).run bareExternals []).broker
    let frame : Frame := ⟨.publish, 1, [1, 0, 1, 0x61, 7]⟩
    (handlePublishFast bareExternals b 0 frame .default).2 =
        .error (.io .unsupported "qos1_durable_requires_async") ∧
      (handlePublishFast bareExternals b 0 frame .default).1 = (b, .default) := by
  intro b frame
  have hback : (handlePublishFast bareExternals b 0 frame .default).2 =
      .error (.io .unsupported "qos1_durable_requires_async") := by decide +kernel
  exact ⟨hback, (fast_path_agrees bareExternals .default true [] []).2.2 _ _ _ _ _ hback⟩

end BlipMQ.Net
