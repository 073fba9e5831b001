import BlipMQ.Net.Payloads
import BlipMQ.Net.Publish
import BlipMQ.Net.Wire

/-!
# Net — delivering what was accepted

A message comes in with a PUBLISH and goes out with a DELIVER frame. Both are
held to the same 16 MiB, but a DELIVER has eight bytes more around topic and
message than a PUBLISH without optional fields. What a PUBLISH can just carry
cannot be delivered, and the encoder the broker pushes with says nothing.
-/

namespace BlipMQ.Net

open BlipMQ.Core

/-! ## The encoder of a connection -/

def qosByte : QoSLevel → UInt8
  | .atMostOnce => 0
  | .atLeastOnce => 1

/-- `make_deliver_encoder`: on an error the buffer is left as it is. -/
def makeDeliverEncoder (buf : Bytes) (qos : QoSLevel) (tag : Nat) (topic : String)
    (payload : Bytes) : Bytes :=
  match encodeDeliverFrame buf (qosByte qos) tag topic payload with
  | .ok buf' => buf'
  | .error _ => buf

/-! ## Sizes -/

namespace PublishPayload

/-- The bytes of the optional fields. -/
def optionalLen (p : PublishPayload) : Nat :=
  (if p.ttlMs.isSome then 4 else 0) + p.partitionKey.elim 0 (2 + ·.length)

theorem length_of_decode {bytes : Bytes} {p : PublishPayload} (h : decode bytes = .ok p) :
    bytes.length = 3 + p.optionalLen + p.topic.length + p.message.length ∧
      utf8 p.topicStr = p.topic := by
  obtain ⟨⟨-, name, hname⟩, -, q, -, rfl⟩ := decode_iff.mp h
  refine ⟨?_, ?_⟩
  · have httl : (p.ttlMs.elim [] (beBytes 4)).length = if p.ttlMs.isSome then 4 else 0 := by
      cases p.ttlMs with
      | none => rfl
      | some ttl => exact beBytes_length 4 ttl
    have hkey : (p.partitionKey.elim [] sized).length = p.partitionKey.elim 0 (2 + ·.length) := by
      cases p.partitionKey with
      | none => rfl
      | some key => exact sized_length key
    simp only [PublishPayload.bytes, optionalLen, List.length_cons, List.length_append, httl, hkey,
      sized_length]
    omega
  · rw [topicStr, hname, fromUtf8_utf8]
    rfl

end PublishPayload

theorem length_of_tryDecodeFrame {src rest : Bytes} {frame : Frame}
    (h : tryDecodeFrame src = .ok (some (frame, rest))) :
    1 + 8 + frame.payload.length ≤ maxFrameSize := by
  unfold tryDecodeFrame at h
  dsimp only at h
  repeat' split at h
  all_goals cases h
  rename_i hmax h9 hlen _ _ _
  simp only [List.length_drop, List.length_take]
  omega

/-- What is known of an accepted PUBLISH. -/
theorem accepted_sizes {src rest : Bytes} {frame : Frame} {payload : PublishPayload}
    {qos : QoSLevel} (hframe : tryDecodeFrame src = .ok (some (frame, rest)))
    (hcheck : checkPublish frame = .ok (payload, qos)) :
    12 + payload.optionalLen + (utf8 payload.topicStr).length + payload.message.length ≤
        maxFrameSize ∧ (utf8 payload.topicStr).length < 2 ^ 16 := by
  obtain ⟨hdecode, hvalid, -⟩ := checkPublish_eq_ok hcheck
  have hbody := length_of_tryDecodeFrame hframe
  obtain ⟨hlen, htopic⟩ := PublishPayload.length_of_decode hdecode
  refine ⟨?_, ?_⟩
  · rw [htopic]
    omega
  · -- the handler refuses topics a two-byte length cannot carry
    exact length_of_validateTopic hvalid

/-! ## Encoding a delivery -/

/-- The frame of a delivery. -/
def deliverFrame (qos : UInt8) (tag : Nat) (topic : String) (message : Bytes) : Frame :=
  ⟨.deliver, tag, qos :: (beBytes 8 tag ++ (beBytes 2 (utf8 topic).length ++
    (utf8 topic ++ message)))⟩

section Encode

variable (qos : UInt8) (tag : Nat) (topic : String) (message : Bytes)

theorem length_deliverFrame : 1 + 8 + (deliverFrame qos tag topic message).payload.length =
    20 + (utf8 topic).length + message.length := by
  simp only [deliverFrame, List.length_cons, List.length_append, beBytes_length]
  omega

variable {qos tag topic message} {dst : Bytes}

theorem encodeDeliverFrame_eq (htopic : (utf8 topic).length < 2 ^ 16) :
    encodeDeliverFrame dst qos tag topic message =
      if 20 + (utf8 topic).length + message.length ≤ maxFrameSize then
        .ok (dst ++ frameBytes (deliverFrame qos tag topic message))
      else .error (.payloadTooLarge (20 + (utf8 topic).length + message.length)) := by
  unfold encodeDeliverFrame
  dsimp only
  rw [if_neg (Nat.not_le.mpr htopic)]
  by_cases hfits : 20 + (utf8 topic).length + message.length ≤ maxFrameSize
  · rw [if_neg (Nat.not_lt.mpr hfits), if_pos hfits, frameBytes, length_deliverFrame]
    rfl
  · rw [if_pos (Nat.lt_of_not_le hfits), if_neg hfits]

/-- What the client reads from the frame. -/
theorem decode_deliverFrame (htag : tag < 2 ^ 64) (htopic : (utf8 topic).length < 2 ^ 16) :
    DeliverPayload.decode (deliverFrame qos tag topic message).payload =
      .ok ⟨qos, tag, topic, message⟩ := by
  refine DeliverPayload.decode_iff.mpr ⟨htag, DeliverPayload.encode_iff.mpr ⟨htopic, ?_⟩⟩
  rw [sized, List.append_assoc]
  rfl

end Encode

/-! ## Pushing a delivery -/

/-- A buffer grew by one complete DELIVER frame of the message. -/
def AppendsDelivery (buf buf' : Bytes) (qos : QoSLevel) (tag : Nat) (topic : String)
    (message : Bytes) : Prop :=
  ∃ frame, buf' = buf ++ frameBytes frame ∧
    tryDecodeFrame (frameBytes frame) = .ok (some (frame, [])) ∧ frame.msgType = .deliver ∧
    DeliverPayload.decode frame.payload = .ok ⟨qosByte qos, tag, topic, message⟩

theorem frameBytes_ne_nil (frame : Frame) : frameBytes frame ≠ [] := by
  intro h
  have hlen := congrArg List.length h
  simp [frameBytes] at hlen

theorem makeDeliverEncoder_cases (buf : Bytes) (qos : QoSLevel) {tag : Nat} {topic : String}
    (message : Bytes) (htag : tag < 2 ^ 64) (htopic : (utf8 topic).length < 2 ^ 16) :
    (AppendsDelivery buf (makeDeliverEncoder buf qos tag topic message) qos tag topic message ↔
        20 + (utf8 topic).length + message.length ≤ maxFrameSize) ∧
      (¬ 20 + (utf8 topic).length + message.length ≤ maxFrameSize →
        makeDeliverEncoder buf qos tag topic message = buf) := by
  unfold makeDeliverEncoder
  rw [encodeDeliverFrame_eq htopic]
  by_cases hfits : 20 + (utf8 topic).length + message.length ≤ maxFrameSize
  · rw [if_pos hfits]
    refine ⟨⟨fun _ => hfits, fun _ => ?_⟩, fun hnot => absurd hfits hnot⟩
    refine ⟨deliverFrame (qosByte qos) tag topic message, rfl, ?_, rfl,
      decode_deliverFrame htag htopic⟩
    refine tryDecodeFrame_frameBytes htag ?_
    rw [length_deliverFrame]
    exact hfits
  · rw [if_neg hfits]
    refine ⟨⟨?_, fun h => absurd h hfits⟩, fun _ => rfl⟩
    rintro ⟨frame, hbuf, -⟩
    have hnil : frameBytes frame = [] := by simpa using hbuf
    exact absurd hnil (frameBytes_ne_nil frame)

/-- **When an accepted message can be delivered**: if and only if a DELIVER frame
with its topic and payload is not longer than 16 MiB, which optional fields of
at least eight bytes guarantee. Otherwise every subscriber it is pushed to
counts as served and gets nothing. -/
theorem accepted_deliverable_iff {src rest : Bytes} {frame : Frame} {payload : PublishPayload}
    {qos : QoSLevel} (hframe : tryDecodeFrame src = .ok (some (frame, rest)))
    (hcheck : checkPublish frame = .ok (payload, qos)) (ahash : Bytes → Nat)
    (crc32 : Bytes → UInt32) (b : Broker) (now : Nat) (walId ttl : Option Nat) (x slot : Nat)
    (sub : Subscriber) (hsub : b.subscribers.lookup x = some sub) (hmode : sub.mode = .slot slot)
    (hroom : b.hasRoom (.slot slot) = true) (htag : sub.pushNextTag < 2 ^ 64) :
    let fits := 20 + (utf8 payload.topicStr).length + payload.message.length ≤ maxFrameSize
    let o : Offer := ⟨walId, payload.topicStr, payload.message, qos⟩
    let out := b.deliver ⟨ahash, crc32, makeDeliverEncoder⟩ now o ttl x
    let buf := (b.slots.lookup slot).getD []
    let buf' := (out.1.slots.lookup slot).getD []
    (8 ≤ payload.optionalLen → fits) ∧
    (∀ dst q tag, (∃ dst', encodeDeliverFrame dst q tag payload.topicStr payload.message =
      .ok dst') ↔ fits) ∧
    out.2 = false ∧ out.1.subscribers.lookup x = some (sub.push now o ttl true) ∧
    (AppendsDelivery buf buf' qos (sub.wireTag o) payload.topicStr payload.message ↔ fits) ∧
    (¬ fits → buf' = buf) := by
  intro fits o out buf buf'
  obtain ⟨hsize, htopic⟩ := accepted_sizes hframe hcheck
  obtain ⟨hserved, hpushed, hbuf⟩ := Broker.served_of_slot hsub hmode hroom
    (E := ⟨ahash, crc32, makeDeliverEncoder⟩) now o ttl
  have hwire : sub.wireTag o < 2 ^ 64 := by
    unfold Subscriber.wireTag
    split
    · exact htag
    · decide
  obtain ⟨happends, hlost⟩ := makeDeliverEncoder_cases buf qos payload.message hwire htopic
  refine ⟨fun hoptional => ?_, fun dst q tag => ?_, hserved, hpushed, ?_, fun hnot => ?_⟩
  · show 20 + _ + _ ≤ _
    omega
  · rw [encodeDeliverFrame_eq htopic]
    split
    · rename_i hfits
      exact iff_of_true ⟨_, rfl⟩ hfits
    · rename_i hfits
      exact iff_of_false (fun ⟨_, h⟩ => nomatch h) hfits
  · exact (iff_of_eq (congrArg (AppendsDelivery buf · _ _ _ _) hbuf)).trans happends
  · exact hbuf.trans (hlost hnot)

/-- A QoS1 PUBLISH to topic `a`, without optional fields. -/
def plainPublish (message : Bytes) : Frame := ⟨.publish, 1, 1 :: 0 :: 1 :: 0x61 :: message⟩

theorem checkPublish_plainPublish (message : Bytes) :
    checkPublish (plainPublish message) =
      .ok (⟨[0x61], 1, message, none, none⟩, .atLeastOnce) := by
  have hname : fromUtf8 [0x61] = some "a" := fromUtf8_utf8 "a"
  have hdecode : PublishPayload.decode (1 :: 0 :: 1 :: 0x61 :: message) =
      .ok ⟨[0x61], 1, message, none, none⟩ := by
    have hannounces : PublishPayload.Announces 1 ⟨[0x61], 1, message, none, none⟩ := by
      constructor <;> dsimp only <;> decide
    have hfits : PublishPayload.Fits ⟨[0x61], 1, message, none, none⟩ :=
      ⟨(by decide : [0x61].length < 2 ^ 16), fun key hkey => by cases hkey⟩
    have hsized : sized [0x61] = [0, 1, 0x61] := by decide
    refine PublishPayload.decode_iff.mpr ⟨⟨?_, "a", ?_⟩, hfits, 1, hannounces, ?_⟩
    · intro ttl httl
      cases httl
    · exact (utf8_of_fromUtf8 hname).symm
    · rw [PublishPayload.bytes, hsized]
      rfl
  have hvalid : validateTopic "a" = none := by decide +kernel
  unfold checkPublish plainPublish PublishPayload.topicStr
  simp only [hdecode, hname, Option.getD_some, hvalid]
  rfl

/-- A broker with one subscription, pushed to over slot 1. -/
def oneSlot : Broker :=
  ((Broker.newInMemory .default).subscribeWithSlot "c" "a" .atLeastOnce 1 1).1

theorem tryDecodeFrame_plainPublish (message : Bytes) (h : 13 + message.length ≤ maxFrameSize) :
    tryDecodeFrame (frameBytes (plainPublish message)) = .ok (some (plainPublish message, [])) := by
  refine tryDecodeFrame_frameBytes (show 1 < 2 ^ 64 by decide) ?_
  simp only [plainPublish, List.length_cons]
  omega

/-- The message of one byte fits. -/
theorem accepted_deliverable_iff_short :
    tryDecodeFrame (frameBytes (plainPublish [7])) = .ok (some (plainPublish [7], [])) ∧
    checkPublish (plainPublish [7]) = .ok (⟨[0x61], 1, [7], none, none⟩, .atLeastOnce) ∧
    AppendsDelivery [] (((oneSlot.deliver ⟨fun _ => 0, fun _ => 0, makeDeliverEncoder⟩ 0
      ⟨none, "a", [7], .atLeastOnce⟩ none 1).1.slots.lookup 1).getD []) .atLeastOnce 1 "a" [7] := by
  have hname : PublishPayload.topicStr ⟨[0x61], 1, [7], none, none⟩ = "a" := by decide +kernel
  have hframe := tryDecodeFrame_plainPublish [7] (by decide)
  have hcheck := checkPublish_plainPublish [7]
  have hall := accepted_deliverable_iff hframe hcheck (fun _ => 0) (fun _ => 0) oneSlot 0 none none
    1 1 _ rfl rfl (by decide +kernel) (by decide)
  have happends := hall.2.2.2.2.1.mpr (by rw [hname]; decide +kernel)
  rw [hname] at happends
  exact ⟨hframe, hcheck, happends⟩

/-- A message that a PUBLISH of exactly 16 MiB carries is accepted, counted and
tracked, and no frame comes out. -/
theorem longest_message_not_delivered :
    let message : Bytes := List.replicate (maxFrameSize - 13) 0
    let out := oneSlot.deliver ⟨fun _ => 0, fun _ => 0, makeDeliverEncoder⟩ 0
      ⟨none, "a", message, .atLeastOnce⟩ none 1
    tryDecodeFrame (frameBytes (plainPublish message)) = .ok (some (plainPublish message, [])) ∧
    checkPublish (plainPublish message) = .ok (⟨[0x61], 1, message, none, none⟩, .atLeastOnce) ∧
    (∀ dst q tag, encodeDeliverFrame dst q tag "a" message =
      .error (.payloadTooLarge (maxFrameSize + 8))) ∧
    out.2 = false ∧ (out.1.slots.lookup 1).getD [] = [] ∧
    ((out.1.subscribers.lookup 1).bind (·.queue.inflight.lookup 1)).isSome = true := by
  intro message out
  have hlen : message.length = maxFrameSize - 13 := List.length_replicate
  clear_value message
  have htopic : (utf8 "a").length = 1 := by decide +kernel
  have hsize : 20 + (utf8 "a").length + message.length = maxFrameSize + 8 := by
    have hmax : 13 ≤ maxFrameSize := by decide +kernel
    omega
  have herror : ∀ dst q tag, encodeDeliverFrame dst q tag "a" message =
      .error (.payloadTooLarge (maxFrameSize + 8)) := by
    intro dst q tag
    rw [encodeDeliverFrame_eq (by decide +kernel), hsize, if_neg (by decide)]
  obtain ⟨sub, hsub, hmode, htag⟩ : ∃ sub, oneSlot.subscribers.lookup 1 = some sub ∧
      sub.mode = .slot 1 ∧ sub.pushNextTag = 1 := ⟨_, rfl, rfl, rfl⟩
  obtain ⟨hserved, hpushed, hbuf⟩ := Broker.served_of_slot hsub hmode (by decide +kernel)
    (E := ⟨fun _ => 0, fun _ => 0, makeDeliverEncoder⟩) 0 ⟨none, "a", message, .atLeastOnce⟩ none
  refine ⟨tryDecodeFrame_plainPublish message ?_, checkPublish_plainPublish message, herror,
    hserved, ?_, ?_⟩
  · rw [hlen]
    decide +kernel
  · refine hbuf.trans ?_
    show makeDeliverEncoder _ _ _ "a" message = []
    rw [makeDeliverEncoder, herror]
    rfl
  · rw [show out.1.subscribers.lookup 1 = _ from hpushed]
    show ((sub.queue.inflight.insert sub.pushNextTag _).lookup 1).isSome = true
    rw [htag, AList.lookup_insert]
    rfl

end BlipMQ.Net
