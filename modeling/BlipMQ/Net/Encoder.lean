import BlipMQ.Net.Deliver

/-!
# Net — encoding into a buffer

The encoders write to a buffer of their caller, which is there before and
after the call, also when the call fails. Here they are written as the source
has them, as a sequence of puts; `encodeFrame` and `encodeDeliverFrame` are
what they come to. A usize cannot overflow on the lengths of slices that are
in memory, so sums of lengths are plain sums.
-/

namespace BlipMQ.Net

/-- Code that appends to a `BytesMut`. What was put before an error stays put. -/
abbrev Put := ExceptT FrameEncodeError (StateM Bytes)

namespace Put

def slice (bytes : Bytes) : Put Unit := modify (· ++ bytes)

def u8 (n : UInt8) : Put Unit := slice [n]
def u16 (n : Nat) : Put Unit := slice (beBytes 2 n)
def u32 (n : Nat) : Put Unit := slice (beBytes 4 n)
def u64 (n : Nat) : Put Unit := slice (beBytes 8 n)

/-- The outcome, and the buffer the caller has afterwards. -/
def into {α : Type} (p : Put α) (dst : Bytes) : Except FrameEncodeError α × Bytes := p.run.run dst

section Into

variable {α β : Type} (dst : Bytes)

@[simp] theorem into_slice (bytes : Bytes) : (slice bytes).into dst = (.ok (), dst ++ bytes) := rfl

@[simp] theorem into_throw (e : FrameEncodeError) : (throw e : Put α).into dst = (.error e, dst) :=
  rfl

/-- What is put first stands first. -/
@[simp] theorem into_slice_bind (bytes : Bytes) (f : Unit → Put α) :
    (slice bytes >>= f).into dst = (f ()).into (dst ++ bytes) := rfl

/-- An error ends the call with the buffer as it is. -/
@[simp] theorem into_throw_bind (e : FrameEncodeError) (f : α → Put β) :
    ((throw e : Put α) >>= f).into dst = (.error e, dst) := rfl

end Into

end Put

open Put

/-! ## The encoders -/

/-- `encode_frame`. -/
def encodeFrameInto (frame : Frame) : Put Unit := do
  let payloadLen := frame.payload.length
  let totalLen := 1 + 8 + payloadLen
  if maxFrameSize < totalLen then throw (.payloadTooLarge payloadLen)
  u32 totalLen
  u8 frame.msgType.toU8
  u64 frame.correlationId
  slice frame.payload

/-- `encode_deliver_frame`. -/
def encodeDeliverFrameInto (qos : UInt8) (deliveryTag : Nat) (topic : String) (message : Bytes) :
    Put Unit := do
  let topicBytes := utf8 topic
  let topicLen := topicBytes.length
  if 2 ^ 16 ≤ topicLen then throw (.payloadTooLarge topicLen)
  let frameBodyLen := 20 + topicLen + message.length
  if maxFrameSize < frameBodyLen then throw (.payloadTooLarge frameBodyLen)
  u32 frameBodyLen
  u8 FrameType.deliver.toU8
  u64 deliveryTag
  u8 qos
  u64 deliveryTag
  u16 topicLen
  slice topicBytes
  slice message

/-- The payload first, and then a frame around it. -/
def encodeDeliverTwoStep (qos : UInt8) (deliveryTag : Nat) (topic : String) (message : Bytes) :
    Put Unit := do
  let payload ← ofExcept (DeliverPayload.encode ⟨qos, deliveryTag, topic, message⟩)
  encodeFrameInto ⟨.deliver, deliveryTag, payload⟩

/-- The caller's view of an encoder that is given as a function of the buffer. -/
def outcome (dst : Bytes) : Except FrameEncodeError Bytes → Except FrameEncodeError Unit × Bytes
  | .ok dst' => (.ok (), dst')
  | .error e => (.error e, dst)

theorem into_encodeFrame (frame : Frame) (dst : Bytes) :
    (encodeFrameInto frame).into dst = outcome dst (encodeFrame frame dst) := by
  unfold encodeFrameInto encodeFrame
  by_cases hlen : maxFrameSize < 1 + 8 + frame.payload.length
  · simp [hlen, outcome]
  · simp [hlen, u8, u32, u64, outcome, lengthFieldLen]

theorem into_encodeDeliverFrame (qos : UInt8) (tag : Nat) (topic : String) (message dst : Bytes) :
    (encodeDeliverFrameInto qos tag topic message).into dst =
      outcome dst (encodeDeliverFrame dst qos tag topic message) := by
  unfold encodeDeliverFrameInto encodeDeliverFrame
  by_cases htopic : 2 ^ 16 ≤ (utf8 topic).length
  · simp [htopic, outcome, -Nat.reducePow]
  · by_cases hlen : maxFrameSize < 20 + (utf8 topic).length + message.length
    · simp [htopic, hlen, outcome, -Nat.reducePow]
    · simp [htopic, hlen, u8, u16, u32, u64, outcome, lengthFieldLen, -Nat.reducePow]

/-! ## One pass and two steps -/

/-- An encoder that appends `bytes` if they fit, and otherwise leaves the buffer
alone. -/
structure Appends (p : Put Unit) (bytes : Bytes) (fits : Prop) : Prop where
  ok : fits → ∀ dst, p.into dst = (.ok (), dst ++ bytes)
  error : ¬ fits → ∀ dst, ∃ e, p.into dst = (.error e, dst)

/-- Two encoders of the same bytes under the same condition cannot be told apart
but by their errors. -/
theorem Appends.agree {p q : Put Unit} {bytes : Bytes} {fits : Prop} (hp : Appends p bytes fits)
    (hq : Appends q bytes fits) (dst : Bytes) :
    ((p.into dst).1 = .ok () ↔ (q.into dst).1 = .ok ()) ∧
    ((p.into dst).1 = .ok () → ∃ appended, (p.into dst).2 = dst ++ appended ∧
      (q.into dst).2 = dst ++ appended) ∧
    ((p.into dst).1 ≠ .ok () → (p.into dst).2 = dst ∧ (q.into dst).2 = dst) := by
  by_cases hfits : fits
  · rw [hp.ok hfits, hq.ok hfits]
    exact ⟨Iff.rfl, fun _ => ⟨bytes, rfl, rfl⟩, fun h => absurd rfl h⟩
  · obtain ⟨e, he⟩ := hp.error hfits dst
    obtain ⟨e', he'⟩ := hq.error hfits dst
    rw [he, he']
    exact ⟨by simp, by simp, fun _ => ⟨rfl, rfl⟩⟩

section Deliver

variable (qos : UInt8) (tag : Nat) (topic : String) (message : Bytes)

/-- The sizes at which a delivery can be encoded. -/
def DeliverFits : Prop :=
  (utf8 topic).length < 2 ^ 16 ∧ 20 + (utf8 topic).length + message.length ≤ maxFrameSize

theorem appends_onePass : Appends (encodeDeliverFrameInto qos tag topic message)
    (frameBytes (deliverFrame qos tag topic message)) (DeliverFits topic message) where
  ok := by
    rintro ⟨htopic, hlen⟩ dst
    rw [into_encodeDeliverFrame, encodeDeliverFrame_eq htopic, if_pos hlen]
    rfl
  error := by
    intro hfits dst
    rw [into_encodeDeliverFrame]
    by_cases htopic : (utf8 topic).length < 2 ^ 16
    · rw [encodeDeliverFrame_eq htopic, if_neg fun hlen => hfits ⟨htopic, hlen⟩]
      exact ⟨_, rfl⟩
    · rw [encodeDeliverFrame, if_pos (Nat.le_of_not_lt htopic)]
      exact ⟨_, rfl⟩

theorem appends_twoStep : Appends (encodeDeliverTwoStep qos tag topic message)
    (frameBytes (deliverFrame qos tag topic message)) (DeliverFits topic message) where
  ok := by
    rintro ⟨htopic, hlen⟩ dst
    rw [← length_deliverFrame qos tag] at hlen
    unfold encodeDeliverTwoStep
    rw [DeliverPayload.encode, if_neg (Nat.not_le.mpr htopic)]
    change (encodeFrameInto (deliverFrame qos tag topic message)).into dst = _
    rw [into_encodeFrame, encodeFrame_eq_ok.mpr ⟨hlen, rfl⟩]
    rfl
  error := by
    intro hfits dst
    unfold encodeDeliverTwoStep
    by_cases htopic : (utf8 topic).length < 2 ^ 16
    · -- the payload is there, the frame is refused
      have hlen : maxFrameSize < 1 + 8 + (deliverFrame qos tag topic message).payload.length := by
        rw [length_deliverFrame]
        exact Nat.lt_of_not_le fun hlen => hfits ⟨htopic, hlen⟩
      rw [DeliverPayload.encode, if_neg (Nat.not_le.mpr htopic)]
      change ∃ e, (encodeFrameInto (deliverFrame qos tag topic message)).into dst = _
      rw [into_encodeFrame, encodeFrame, if_pos hlen]
      exact ⟨_, rfl⟩
    · rw [DeliverPayload.encode, if_pos (Nat.le_of_not_lt htopic)]
      exact ⟨_, rfl⟩

end Deliver

/-- **The one-pass encoder equals the two-step one**: on the same buffer both
succeed or both fail, on success they append the same bytes, and on failure
the buffer is as it was. -/
theorem deliver_encoders_agree (qos : UInt8) (tag : Nat) (topic : String)
    (message dst : Bytes) :
    let one := (encodeDeliverFrameInto qos tag topic message).into dst
    let two := (encodeDeliverTwoStep qos tag topic message).into dst
    (one.1 = .ok () ↔ two.1 = .ok ()) ∧
    (one.1 = .ok () → ∃ appended, one.2 = dst ++ appended ∧ two.2 = dst ++ appended) ∧
    (one.1 ≠ .ok () → one.2 = dst ∧ two.2 = dst) :=
  (appends_onePass qos tag topic message).agree (appends_twoStep qos tag topic message) dst

end BlipMQ.Net
