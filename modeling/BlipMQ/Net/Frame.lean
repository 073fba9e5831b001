import BlipMQ.Core.Entry
import BlipMQ.Lib.Stream

/-!
# Net — frames and payloads

A frame is a four-byte length, a type byte, a correlation id and a payload;
all integers are big-endian. The length counts what stands behind it and is
at most 16 MiB. Each type of frame has its own layout of the payload, in
which flag bits of the QoS byte say which optional fields are there.
-/

namespace BlipMQ.Net

open BlipMQ.Core

def lengthFieldLen : Nat := 4
def maxFrameSize : Nat := 16 * 1024 * 1024
def protocolVersion : Nat := 2

inductive FrameType where
  | hello
  | auth
  | publish
  | subscribe
  | ack
  | nack
  | ping
  | pong
  | poll
  | deliver
  deriving DecidableEq, Repr

structure Frame where
  msgType : FrameType
  correlationId : Nat
  payload : Bytes
  deriving DecidableEq, Repr

inductive FrameDecodeError where
  | invalidLength (len : Nat)
  | frameTooLarge (len : Nat)
  | unknownFrameType (value : UInt8)
  deriving DecidableEq, Repr

inductive FrameEncodeError where
  | payloadTooLarge (len : Nat)
  deriving DecidableEq, Repr

namespace FrameType

def toU8 : FrameType → UInt8
  | hello => 0x01
  | auth => 0x02
  | publish => 0x03
  | subscribe => 0x04
  | ack => 0x05
  | nack => 0x06
  | ping => 0x07
  | pong => 0x08
  | poll => 0x09
  | deliver => 0x0A

def tryFrom (value : UInt8) : Except FrameDecodeError FrameType :=
  if value = 0x01 then .ok hello
  else if value = 0x02 then .ok auth
  else if value = 0x03 then .ok publish
  else if value = 0x04 then .ok subscribe
  else if value = 0x05 then .ok ack
  else if value = 0x06 then .ok nack
  else if value = 0x07 then .ok ping
  else if value = 0x08 then .ok pong
  else if value = 0x09 then .ok poll
  else if value = 0x0A then .ok deliver
  else .error (.unknownFrameType value)

@[simp] theorem tryFrom_toU8 (t : FrameType) : tryFrom t.toU8 = .ok t := by
  cases t <;> rfl

end FrameType

/-! ## Reading fields

Every decoder looks at how much is left before it reads, and every error of
a payload decoder is the length of the payload as a `u32`. -/

def invalidPayload (payload : Bytes) : FrameDecodeError := .invalidLength (payload.length % 2 ^ 32)

/-- An integer of `width` bytes, and what follows it. -/
def readNat (invalid : FrameDecodeError) (width : Nat) (slice : Bytes) :
    Except FrameDecodeError (Nat × Bytes) :=
  if slice.length < width then .error invalid
  else .ok (beNat (slice.take width), slice.drop width)

/-- `len` bytes, and what follows them. -/
def readBytes (invalid : FrameDecodeError) (len : Nat) (slice : Bytes) :
    Except FrameDecodeError (Bytes × Bytes) :=
  if slice.length < len then .error invalid else .ok (slice.take len, slice.drop len)

theorem readNat_eq_ok {invalid : FrameDecodeError} {width v : Nat} {slice rest : Bytes} :
    readNat invalid width slice = .ok (v, rest) ↔
      width ≤ slice.length ∧ beNat (slice.take width) = v ∧ slice.drop width = rest := by
  unfold readNat
  split <;> simp <;> omega

theorem readBytes_eq_ok {invalid : FrameDecodeError} {len : Nat} {slice bs rest : Bytes} :
    readBytes invalid len slice = .ok (bs, rest) ↔
      len ≤ slice.length ∧ slice.take len = bs ∧ slice.drop len = rest := by
  unfold readBytes
  split <;> simp <;> omega

/-! ## Payloads -/

structure HelloPayload where
  protocolVersion : Nat
  deriving DecidableEq, Repr

def HelloPayload.encode (p : HelloPayload) : Bytes := beBytes 2 p.protocolVersion

def HelloPayload.decode (payload : Bytes) : Except FrameDecodeError HelloPayload :=
  if payload.length ≠ 2 then .error (invalidPayload payload)
  else .ok ⟨beNat payload⟩

/-- `String::from_utf8`. -/
def text (invalid : FrameDecodeError) (bs : Bytes) : Except FrameDecodeError String :=
  match fromUtf8 bs with
  | none => .error invalid
  | some s => .ok s

structure AuthPayload where
  apiKey : String
  deriving DecidableEq, Repr

def AuthPayload.encode (p : AuthPayload) : Except FrameEncodeError Bytes :=
  let keyBytes := utf8 p.apiKey
  if 2 ^ 16 ≤ keyBytes.length then .error (.payloadTooLarge keyBytes.length)
  else .ok (beBytes 2 keyBytes.length ++ keyBytes)

def AuthPayload.decode (payload : Bytes) : Except FrameDecodeError AuthPayload := do
  let invalid := invalidPayload payload
  let (keyLen, slice) ← readNat invalid 2 payload
  if slice.length ≠ keyLen then .error invalid
  let apiKey ← text invalid slice
  return ⟨apiKey⟩

structure AckPayload where
  subscriptionId : Nat
  deriving DecidableEq, Repr

def AckPayload.encode (p : AckPayload) : Except FrameEncodeError Bytes :=
  .ok (beBytes 8 p.subscriptionId)

def AckPayload.decode (payload : Bytes) : Except FrameDecodeError AckPayload :=
  if payload.length ≠ 8 then .error (invalidPayload payload)
  else .ok ⟨beNat payload⟩

structure NackPayload where
  code : Nat
  message : String
  deriving DecidableEq, Repr

def NackPayload.encode (p : NackPayload) : Except FrameEncodeError Bytes :=
  let msgBytes := utf8 p.message
  if 2 ^ 16 ≤ msgBytes.length then .error (.payloadTooLarge msgBytes.length)
  else .ok (beBytes 2 p.code ++ (beBytes 2 msgBytes.length ++ msgBytes))

def NackPayload.decode (payload : Bytes) : Except FrameDecodeError NackPayload := do
  let invalid := invalidPayload payload
  if payload.length < 4 then .error invalid
  let (code, slice) ← readNat invalid 2 payload
  let (msgLen, slice) ← readNat invalid 2 slice
  if slice.length ≠ msgLen then .error invalid
  let message ← text invalid slice
  return ⟨code, message⟩

structure PublishPayload where
  topic : Bytes
  qos : UInt8
  message : Bytes
  ttlMs : Option Nat
  partitionKey : Option Bytes
  deriving DecidableEq, Repr

namespace PublishPayload

def flagHasTtl : UInt8 := 0x80
def flagHasKey : UInt8 := 0x40
def qosMask : UInt8 := 0x03

/-- The QoS, and which of the optional fields follow. -/
def qosByte (p : PublishPayload) : UInt8 :=
  let qosByte := p.qos &&& qosMask
  let qosByte := if p.ttlMs.isSome then qosByte ||| flagHasTtl else qosByte
  if p.partitionKey.isSome then qosByte ||| flagHasKey else qosByte

def encode (p : PublishPayload) : Except FrameEncodeError Bytes := do
  let topicLen := p.topic.length
  if 2 ^ 16 ≤ topicLen then .error (.payloadTooLarge topicLen)
  let keyBytes ← match p.partitionKey with
    | none => .ok []
    | some key =>
      if 2 ^ 16 ≤ key.length then .error (.payloadTooLarge key.length)
      else .ok (beBytes 2 key.length ++ key)
  return p.qosByte :: (p.ttlMs.elim [] (beBytes 4) ++ (keyBytes ++
    (beBytes 2 topicLen ++ (p.topic ++ p.message))))

/-- An optional field is read only where its flag is set. -/
def decodeTtl (invalid : FrameDecodeError) (qosByte : UInt8) (slice : Bytes) :
    Except FrameDecodeError (Option Nat × Bytes) :=
  if qosByte &&& flagHasTtl ≠ 0 then do
    let (ttl, slice) ← readNat invalid 4 slice
    return (some ttl, slice)
  else .ok (none, slice)

def decodeKey (invalid : FrameDecodeError) (qosByte : UInt8) (slice : Bytes) :
    Except FrameDecodeError (Option Bytes × Bytes) :=
  if qosByte &&& flagHasKey ≠ 0 then do
    let (klen, slice) ← readNat invalid 2 slice
    let (key, slice) ← readBytes invalid klen slice
    return (some key, slice)
  else .ok (none, slice)

/-- QoS byte, TTL, key, topic, message. -/
def decode (payload : Bytes) : Except FrameDecodeError PublishPayload := do
  let invalid := invalidPayload payload
  if payload.length < 3 then .error invalid
  let qosByte := payload.headD 0
  let (ttlMs, slice) ← decodeTtl invalid qosByte (payload.drop 1)
  let (partitionKey, slice) ← decodeKey invalid qosByte slice
  let (topicLen, slice) ← readNat invalid 2 slice
  let (topic, message) ← readBytes invalid topicLen slice
  let _ ← text invalid topic
  return ⟨topic, qosByte &&& qosMask, message, ttlMs, partitionKey⟩

/-- The topic as text; `decode` has checked that it is. -/
def topicStr (p : PublishPayload) : String := (fromUtf8 p.topic).getD ""

end PublishPayload

structure SubscribePayload where
  topic : String
  qos : UInt8
  group : Option String
  fromOffset : Option Nat
  deriving DecidableEq, Repr

namespace SubscribePayload

def flagHasGroup : UInt8 := 0x80
def flagHasOffset : UInt8 := 0x40
def qosMask : UInt8 := 0x03

def qosLevel (p : SubscribePayload) : UInt8 := p.qos &&& qosMask

/-- The QoS, and which of the optional fields follow. -/
def qosByte (p : SubscribePayload) : UInt8 :=
  let qosByte := p.qos &&& qosMask
  let qosByte := if p.group.isSome then qosByte ||| flagHasGroup else qosByte
  if p.fromOffset.isSome then qosByte ||| flagHasOffset else qosByte

def encode (p : SubscribePayload) : Except FrameEncodeError Bytes := do
  let topicBytes := utf8 p.topic
  if 2 ^ 16 ≤ topicBytes.length then .error (.payloadTooLarge topicBytes.length)
  let groupBytes ← match p.group with
    | none => .ok []
    | some group =>
      let groupBytes := utf8 group
      if 2 ^ 16 ≤ groupBytes.length then .error (.payloadTooLarge groupBytes.length)
      else .ok (beBytes 2 groupBytes.length ++ groupBytes)
  return beBytes 2 topicBytes.length ++ (topicBytes ++ (p.qosByte ::
    (groupBytes ++ p.fromOffset.elim [] (beBytes 8))))

/-- The group behind the flag byte, and what follows it. -/
def decodeGroup (invalid : FrameDecodeError) (slice : Bytes) :
    Except FrameDecodeError (String × Bytes) := do
  if slice.length < 2 then .error invalid
  let groupLen := beNat (slice.take 2)
  let slice := slice.drop 2
  if slice.length < groupLen then .error invalid
  let group ← text invalid (slice.take groupLen)
  return (group, slice.drop groupLen)

def decode (payload : Bytes) : Except FrameDecodeError SubscribePayload := do
  let invalid := invalidPayload payload
  if payload.length < 3 then .error invalid
  let topicLen := beNat (payload.take 2)
  let slice := payload.drop 2
  if slice.length < topicLen + 1 then .error invalid
  let topic ← text invalid (slice.take topicLen)
  let qosRaw := (slice.drop topicLen).headD 0
  let slice := slice.drop (topicLen + 1)
  let (group, slice) ←
    if qosRaw &&& flagHasGroup ≠ 0 then do
      let (group, slice) ← decodeGroup invalid slice
      pure (some group, slice)
    else pure (none, slice)
  let fromOffset ←
    if qosRaw &&& flagHasOffset ≠ 0 then
      if slice.length < 8 then .error invalid else pure (some (beNat (slice.take 8)))
    else pure none
  return ⟨topic, qosRaw &&& qosMask, group, fromOffset⟩

end SubscribePayload

structure DeliverPayload where
  qos : UInt8
  deliveryTag : Nat
  topic : String
  message : Bytes
  deriving DecidableEq, Repr

def DeliverPayload.encode (p : DeliverPayload) : Except FrameEncodeError Bytes :=
  let topicBytes := utf8 p.topic
  if 2 ^ 16 ≤ topicBytes.length then .error (.payloadTooLarge topicBytes.length)
  else .ok (p.qos :: (beBytes 8 p.deliveryTag ++
    (beBytes 2 topicBytes.length ++ (topicBytes ++ p.message))))

/-- What a client does with a DELIVER frame. -/
def DeliverPayload.decode (payload : Bytes) : Except FrameDecodeError DeliverPayload := do
  let invalid := invalidPayload payload
  if payload.length < 1 + 8 + 2 then .error invalid
  let qos := payload.headD 0
  let deliveryTag := beNat ((payload.drop 1).take 8)
  let topicLen := beNat ((payload.drop 9).take 2)
  let (topicBytes, message) ← readBytes invalid topicLen (payload.drop 11)
  let topic ← text invalid topicBytes
  return ⟨qos, deliveryTag, topic, message⟩

structure PollPayload where
  subscriptionId : Nat
  deriving DecidableEq, Repr

def PollPayload.encode (p : PollPayload) : Except FrameEncodeError Bytes :=
  .ok (beBytes 8 p.subscriptionId)

def PollPayload.decode (payload : Bytes) : Except FrameDecodeError PollPayload :=
  if payload.length ≠ 8 then .error (invalidPayload payload)
  else .ok ⟨beNat payload⟩

/-! ## Frames -/

def encodeFrame (frame : Frame) (dst : Bytes) : Except FrameEncodeError Bytes :=
  let payloadLen := frame.payload.length
  let totalLen := 1 + 8 + payloadLen
  if maxFrameSize < totalLen then .error (.payloadTooLarge payloadLen)
  else .ok (dst ++ (beBytes lengthFieldLen totalLen ++
    (frame.msgType.toU8 :: (beBytes 8 frame.correlationId ++ frame.payload))))

/-- A DELIVER frame in one pass; the tag is also the correlation id. -/
def encodeDeliverFrame (dst : Bytes) (qos : UInt8) (deliveryTag : Nat) (topic : String)
    (message : Bytes) : Except FrameEncodeError Bytes :=
  let topicBytes := utf8 topic
  let topicLen := topicBytes.length
  if 2 ^ 16 ≤ topicLen then .error (.payloadTooLarge topicLen)
  else
    let frameBodyLen := 20 + topicLen + message.length
    if maxFrameSize < frameBodyLen then .error (.payloadTooLarge frameBodyLen)
    else .ok (dst ++ (beBytes lengthFieldLen frameBodyLen ++ (FrameType.deliver.toU8 ::
      (beBytes 8 deliveryTag ++ (qos :: (beBytes 8 deliveryTag ++
        (beBytes 2 topicLen ++ (topicBytes ++ message))))))))

/-- A frame at the front of the buffer and what is left behind it; `none` if
bytes are missing. The length is checked as soon as it is there, the type
only once the frame is complete. -/
def tryDecodeFrame (src : Bytes) : Except FrameDecodeError (Option (Frame × Bytes)) :=
  if src.length < lengthFieldLen then .ok none
  else
    let frameLen := beNat (src.take lengthFieldLen)
    if frameLen = 0 then .error (.invalidLength frameLen)
    else if maxFrameSize < frameLen then .error (.frameTooLarge frameLen)
    else if frameLen < 1 + 8 then .error (.invalidLength frameLen)
    -- the length is sound; the rest of the frame is still to come
    else if src.length < lengthFieldLen + frameLen then .ok none
    else
      let frameBytes := (src.take (lengthFieldLen + frameLen)).drop lengthFieldLen
      match FrameType.tryFrom (frameBytes.headD 0) with
      | .error e => .error e
      | .ok msgType =>
        .ok (some (⟨msgType, beNat ((frameBytes.drop 1).take 8), frameBytes.drop 9⟩,
          src.drop (lengthFieldLen + frameLen)))

end BlipMQ.Net
