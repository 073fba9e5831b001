import BlipMQ.Core.Replay
import BlipMQ.Net.Frame

/-!
# Net — the SUBSCRIBE handler

A SUBSCRIBE frame is decoded and checked, the subscription is registered
with the shared buffer of its connection, and only a frame that carries an
offset gets messages from the log. The client id the broker sees is made up
from the number of the connection.
-/

namespace BlipMQ.Net

open BlipMQ.Core

/-! ## Errors and responses -/

/-- The kinds of I/O errors the network layer makes itself. -/
inductive ErrorKind where
  | unsupported
  | permissionDenied
  | brokenPipe
  deriving DecidableEq, Repr

inductive Error where
  | io (kind : ErrorKind) (message : String)
  | frameDecode (e : FrameDecodeError)
  | frameEncode (e : FrameEncodeError)
  | handler (reason : String)
  deriving DecidableEq, Repr

inductive FrameResponse where
  | none
  | frame (frame : Frame)
  deriving DecidableEq, Repr

/-- What goes out on the connection. -/
def FrameResponse.toOption : FrameResponse → Option Frame
  | .none => Option.none
  | .frame f => some f

/-! ## The handler -/

def qosFromU8 (v : UInt8) : Option QoSLevel :=
  if v = 0 then some .atMostOnce else if v = 1 then some .atLeastOnce else none

/-- The reason to refuse a topic name, if there is one. -/
def validateTopic (topic : String) : Option String :=
  let bytes := utf8 topic
  if bytes = [] then some "empty topic"
  else if 2 ^ 16 ≤ bytes.length then some "topic too long"
  else if 0 ∈ bytes then some "topic contains NUL byte"
  else none

theorem length_of_validateTopic {topic : String} (h : validateTopic topic = none) :
    (utf8 topic).length < 2 ^ 16 := by
  unfold validateTopic at h
  dsimp only at h
  by_cases hempty : utf8 topic = []
  · rw [if_pos hempty] at h
    cases h
  rw [if_neg hempty] at h
  by_cases hlong : 2 ^ 16 ≤ (utf8 topic).length
  · rw [if_pos hlong] at h
    cases h
  · exact Nat.lt_of_not_le hlong

def makeNack (correlationId code : Nat) (message : String) : Except FrameEncodeError Frame := do
  let payload ← (NackPayload.mk code message).encode
  return ⟨.nack, correlationId, payload⟩

/-- What the checks of a SUBSCRIBE leave: a reason for a NACK, or the QoS. -/
def checkSubscribe (payload : SubscribePayload) : Except String QoSLevel :=
  match validateTopic payload.topic with
  | some reason => .error reason
  | none =>
    match qosFromU8 payload.qosLevel with
    | none => .error "invalid QoS value"
    | some qos =>
      match payload.group with
      | none => .ok qos
      | some group => if group = "" then .error "empty consumer group name" else .ok qos

variable {payload : SubscribePayload}

theorem validateTopic_of_checkSubscribe {qos : QoSLevel} (h : checkSubscribe payload = .ok qos) :
    validateTopic payload.topic = none := by
  unfold checkSubscribe at h
  cases hvalid : validateTopic payload.topic with
  | none => rfl
  | some reason =>
    rw [hvalid] at h
    cases h

def clientIdOf (connId : Nat) : String := s!"conn-{connId}"

/-- The number of a connection has at most twenty digits. -/
theorem length_clientIdOf {connId : Nat} (h : connId < 2 ^ 64) :
    (utf8 (clientIdOf connId)).length < 2 ^ 16 := by
  have hclient : clientIdOf connId = "conn-" ++ String.ofList (Nat.toDigits 10 connId) := by
    unfold clientIdOf
    rw [Nat.toString_eq_ofList_toDigits]
    rfl
  have hconn : (utf8 "conn-").length = 5 := by decide
  have hdigits : (Nat.toDigits 10 connId).length ≤ 20 :=
    (Nat.length_toDigits_le_iff (by decide) (by decide)).mpr (Nat.lt_trans h (by decide))
  have hnumber := length_utf8_ofList_le (Nat.toDigits 10 connId)
  rw [hclient, utf8_append, List.length_append]
  omega

def handleSubscribeSlot (E : Externals) (now : Nat) (log : Log) (b : Broker) (connId : Nat)
    (frame : Frame) (slot : Nat) : Broker × Except FrameEncodeError Frame :=
  match SubscribePayload.decode frame.payload with
  | .error _ => (b, makeNack frame.correlationId 400 "invalid SUBSCRIBE payload")
  | .ok payload =>
    match checkSubscribe payload with
    | .error reason => (b, makeNack frame.correlationId 400 reason)
    | .ok qos =>
      let subscribed := match payload.group with
        | some group =>
          b.subscribeWithSlotInGroup (clientIdOf connId) payload.topic qos connId slot group
        | none => b.subscribeWithSlot (clientIdOf connId) payload.topic qos connId slot
      -- only a frame with an offset gets messages from the log
      let b := match payload.fromOffset with
        | some offset => subscribed.1.replayToSubscriber E now log subscribed.2 offset
        | none => subscribed.1
      (b, (AckPayload.mk subscribed.2).encode.map fun ack => ⟨.ack, frame.correlationId, ack⟩)

section Subscribe

variable {E : Externals} {now : Nat} {log : Log} {b : Broker} {connId : Nat} {frame : Frame}
  {slot : Nat} {payload : SubscribePayload} {qos : QoSLevel}

/-- An accepted SUBSCRIBE registers the subscription, and replays the log to it if
there is an offset. -/
theorem handleSubscribeSlot_accepted
    (hdecode : SubscribePayload.decode frame.payload = .ok payload)
    (hcheck : checkSubscribe payload = .ok qos) :
    let registered := b.subscribeInnerGrouped (clientIdOf connId) payload.topic qos
      (some connId) (.slot slot) payload.group
    (handleSubscribeSlot E now log b connId frame slot).1 = registered.1 ∨
      ∃ offset, (handleSubscribeSlot E now log b connId frame slot).1 =
        registered.1.replayToSubscriber E now log registered.2 offset := by
  unfold handleSubscribeSlot
  simp only [hdecode, hcheck]
  cases hoffset : payload.fromOffset with
  | none =>
    left
    cases payload.group <;> rfl
  | some offset =>
    right
    refine ⟨offset, ?_⟩
    cases payload.group <;> rfl

/-- Only an accepted SUBSCRIBE is answered with an ACK. -/
theorem checkSubscribe_of_acked {ack : Frame}
    (hdecode : SubscribePayload.decode frame.payload = .ok payload)
    (hacked : (handleSubscribeSlot E now log b connId frame slot).2 = .ok ack)
    (htype : ack.msgType = .ack) : ∃ qos, checkSubscribe payload = .ok qos := by
  cases hcheck : checkSubscribe payload with
  | ok qos => exact ⟨qos, rfl⟩
  | error reason =>
    unfold handleSubscribeSlot at hacked
    simp only [hdecode, hcheck] at hacked
    obtain ⟨bytes, -, hnack⟩ := bind_eq_ok.mp hacked
    cases hnack
    cases htype

variable (E now log b connId frame slot) in
/-- A SUBSCRIBE that is turned away changes nothing. -/
theorem handleSubscribeSlot_cases :
    (handleSubscribeSlot E now log b connId frame slot).1 = b ∨
      ∃ payload qos, SubscribePayload.decode frame.payload = .ok payload ∧
        checkSubscribe payload = .ok qos ∧
        let registered := b.subscribeInnerGrouped (clientIdOf connId) payload.topic qos
          (some connId) (.slot slot) payload.group
        (handleSubscribeSlot E now log b connId frame slot).1 = registered.1 ∨
          ∃ offset, (handleSubscribeSlot E now log b connId frame slot).1 =
            registered.1.replayToSubscriber E now log registered.2 offset := by
  cases hdecode : SubscribePayload.decode frame.payload with
  | error e =>
    left
    unfold handleSubscribeSlot
    rw [hdecode]
  | ok payload =>
    cases hcheck : checkSubscribe payload with
    | error reason =>
      left
      unfold handleSubscribeSlot
      simp only [hdecode, hcheck]
    | ok qos => exact .inr ⟨payload, qos, rfl, hcheck, handleSubscribeSlot_accepted hdecode hcheck⟩

/-- An accepted SUBSCRIBE without group and offset registers the subscription the
ACK names, and does nothing else. -/
theorem handleSubscribeSlot_plain
    (hdecode : SubscribePayload.decode frame.payload = .ok payload)
    (hcheck : checkSubscribe payload = .ok qos) (hgroup : payload.group = none)
    (hoffset : payload.fromOffset = none) :
    handleSubscribeSlot E now log b connId frame slot =
      ((b.subscribeWithSlot (clientIdOf connId) payload.topic qos connId slot).1,
        .ok ⟨.ack, frame.correlationId, beBytes 8 b.nextSubscriptionId⟩) := by
  unfold handleSubscribeSlot
  simp only [hdecode, hcheck, hgroup, hoffset]
  rfl

/-- With an offset it is followed by the replay. -/
theorem handleSubscribeSlot_offset {offset : Nat}
    (hdecode : SubscribePayload.decode frame.payload = .ok payload)
    (hcheck : checkSubscribe payload = .ok qos) (hgroup : payload.group = none)
    (hoffset : payload.fromOffset = some offset) :
    (handleSubscribeSlot E now log b connId frame slot).1 =
      (b.subscribeWithSlot (clientIdOf connId) payload.topic qos connId slot).1.replayToSubscriber
        E now log b.nextSubscriptionId offset := by
  unfold handleSubscribeSlot
  simp only [hdecode, hcheck, hgroup, hoffset]
  rfl

end Subscribe

end BlipMQ.Net
