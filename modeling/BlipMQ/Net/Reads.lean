import BlipMQ.Core.Reads
import BlipMQ.Lib.Crc32
import BlipMQ.Net.Payloads

/-!
# Net — the reads of the decoders

The decoders once more, read by read: `slice` is a cursor whose reads panic
where the bytes run out, and some fields are taken out of the payload by
their offsets. No read of any decoder panics, and what the reads come to is
what the decoders of the frame module say.
-/

namespace BlipMQ.Net

open BlipMQ.Core
open Reader

/-! ## Payloads of one number -/

/-- `HelloPayload::decode`, `AckPayload::decode` and `PollPayload::decode`: the
length is checked, then the number is read. -/
def numberReads {α : Type} (mk : Nat → α) (width : Nat) (payload : Bytes) :
    Option (Except FrameDecodeError α) :=
  Reader.result (do
    failIf (payload.length ≠ width) (invalidPayload payload)
    let number ← getUInt width
    return mk number) payload

def HelloPayload.decodeReads (payload : Bytes) : Option (Except FrameDecodeError HelloPayload) :=
  numberReads HelloPayload.mk 2 payload

def AckPayload.decodeReads (payload : Bytes) : Option (Except FrameDecodeError AckPayload) :=
  numberReads AckPayload.mk 8 payload

def PollPayload.decodeReads (payload : Bytes) : Option (Except FrameDecodeError PollPayload) :=
  numberReads PollPayload.mk 8 payload

theorem numberReads_eq {α : Type} (mk : Nat → α) (width : Nat) (payload : Bytes) :
    numberReads mk width payload =
      some (if payload.length ≠ width then .error (invalidPayload payload)
        else .ok (mk (beNat payload))) := by
  refine result_failIf rfl fun hlen => ?_
  have hlen := not_not.mp hlen
  rw [result_getUInt (Nat.le_of_eq hlen.symm), List.take_of_length_le (Nat.le_of_eq hlen)]
  rfl

theorem HelloPayload.decodeReads_eq (payload : Bytes) :
    decodeReads payload = some (decode payload) :=
  numberReads_eq HelloPayload.mk 2 payload

theorem AckPayload.decodeReads_eq (payload : Bytes) :
    decodeReads payload = some (decode payload) :=
  numberReads_eq AckPayload.mk 8 payload

theorem PollPayload.decodeReads_eq (payload : Bytes) :
    decodeReads payload = some (decode payload) :=
  numberReads_eq PollPayload.mk 8 payload

/-! ## AUTH, NACK and DELIVER -/

variable {invalid : FrameDecodeError}

/-- The rule for a number behind a check that it is there. -/
theorem result_readNat {β : Type} {width : Nat} {slice : Bytes}
    {f : Nat → Reader FrameDecodeError β} {g : Nat × Bytes → Except FrameDecodeError β}
    (h : width ≤ slice.length → (f (beNat (slice.take width))).result (slice.drop width) =
      some (g (beNat (slice.take width), slice.drop width))) :
    (failIf (slice.length < width) invalid >>= fun _ => getUInt width >>= f).result slice =
      some (readNat invalid width slice >>= g) := by
  have hread : ¬ slice.length < width → (getUInt width >>= f).result slice = _ := fun hshort =>
    (result_getUInt (Nat.le_of_not_lt hshort) f).trans (h (Nat.le_of_not_lt hshort))
  rw [result_check hread, readNat]
  split <;> rfl

/-- A text behind its length that ends the payload. -/
theorem result_exactText {β : Type} {slice : Bytes} {len : Nat} (f : String → β) :
    Reader.result (do
      failIf ((← remaining) ≠ len) invalid
      let bytes ← copyToBytes len
      let s ← propagate (text invalid bytes)
      return f s) slice =
    some (if slice.length ≠ len then .error invalid
      else text invalid slice >>= fun s => pure (f s)) := by
  rw [result_remaining]
  refine result_failIf rfl fun hexact => ?_
  have hlen := not_not.mp hexact
  rw [result_copyToBytes (Nat.le_of_eq hlen.symm), List.take_of_length_le (Nat.le_of_eq hlen)]
  exact result_propagate fun s => rfl

def AuthPayload.decodeReads (payload : Bytes) : Option (Except FrameDecodeError AuthPayload) :=
  let invalid := invalidPayload payload
  Reader.result (do
    failIf (payload.length < 2) invalid
    let keyLen ← getUInt 2
    failIf ((← remaining) ≠ keyLen) invalid
    let keyBytes ← copyToBytes keyLen
    let apiKey ← propagate (text invalid keyBytes)
    return ⟨apiKey⟩) payload

theorem AuthPayload.decodeReads_eq (payload : Bytes) :
    decodeReads payload = some (decode payload) :=
  result_readNat fun _ => result_exactText AuthPayload.mk

def NackPayload.decodeReads (payload : Bytes) : Option (Except FrameDecodeError NackPayload) :=
  let invalid := invalidPayload payload
  Reader.result (do
    failIf (payload.length < 4) invalid
    let code ← getUInt 2
    let msgLen ← getUInt 2
    failIf ((← remaining) ≠ msgLen) invalid
    let msgBytes ← copyToBytes msgLen
    let message ← propagate (text invalid msgBytes)
    return ⟨code, message⟩) payload

theorem NackPayload.decodeReads_eq (payload : Bytes) :
    decodeReads payload = some (decode payload) := by
  refine result_failIf rfl fun hshort => ?_
  unfold readNat
  have htwo : ¬ payload.length < 2 := by omega
  have htwo' : ¬ (payload.drop 2).length < 2 := by
    rw [List.length_drop]
    omega
  rw [result_getUInt (Nat.le_of_not_lt htwo), result_getUInt (Nat.le_of_not_lt htwo'), if_neg htwo]
  show _ = some ((if _ then _ else _) >>= _)
  rw [if_neg htwo']
  exact result_exactText (NackPayload.mk (beNat (payload.take 2)))

def DeliverPayload.decodeReads (payload : Bytes) :
    Option (Except FrameDecodeError DeliverPayload) :=
  let invalid := invalidPayload payload
  Reader.result (do
    failIf (payload.length < 1 + 8 + 2) invalid
    let qos ← getU8
    let deliveryTag ← getUInt 8
    let topicLen ← getUInt 2
    failIf ((← remaining) < topicLen) invalid
    let topicBytes ← copyToBytes topicLen
    let topic ← propagate (text invalid topicBytes)
    let message ← copyToBytes (← remaining)
    return ⟨qos, deliveryTag, topic, message⟩) payload

/-- The rule for bytes behind a check that they are there. -/
theorem result_readBytes {β : Type} {len : Nat} {slice : Bytes} {m : Reader FrameDecodeError β}
    {g : Bytes × Bytes → Except FrameDecodeError β}
    (h : len ≤ slice.length → m.result slice = some (g (slice.take len, slice.drop len))) :
    (failIf (slice.length < len) invalid >>= fun _ => m).result slice =
      some (readBytes invalid len slice >>= g) := by
  rw [result_check fun hshort => h (Nat.le_of_not_lt hshort), readBytes]
  split <;> rfl

theorem DeliverPayload.decodeReads_eq (payload : Bytes) :
    decodeReads payload = some (decode payload) := by
  refine result_failIf rfl fun hshort => ?_
  have hlen : ∀ n k, n + k ≤ 11 → k ≤ (payload.drop n).length := by
    intro n k hle
    rw [List.length_drop]
    omega
  rw [result_getU8 (by omega), result_getUInt (hlen 1 8 (by decide)), List.drop_drop,
    result_getUInt (hlen 9 2 (by decide)), List.drop_drop, result_remaining]
  refine result_readBytes fun hle => ?_
  rw [result_copyToBytes hle]
  refine result_propagate fun topic => ?_
  rw [result_remaining, result_copyToBytes (Nat.le_refl _), List.take_length]
  rfl

/-! ## PUBLISH

The decoder keeps the offset `header_len` beside the cursor and takes the key,
the topic and the message out of the payload by it. -/

namespace PublishPayload

variable {payload : Bytes} {headerLen : Nat}

def ttlReads (invalid : FrameDecodeError) (qosByte : UInt8) (headerLen : Nat) :
    Reader FrameDecodeError (Option Nat × Nat) :=
  if qosByte &&& flagHasTtl ≠ 0 then do
    failIf ((← remaining) < 4) invalid
    let ttl ← getUInt 4
    return (some ttl, headerLen + 4)
  else return (none, headerLen)

def keyReads (payload : Bytes) (invalid : FrameDecodeError) (qosByte : UInt8) (headerLen : Nat) :
    Reader FrameDecodeError (Option Bytes × Nat) :=
  if qosByte &&& flagHasKey ≠ 0 then do
    failIf ((← remaining) < 2) invalid
    let klen ← getUInt 2
    let headerLen := headerLen + 2
    failIf ((← remaining) < klen) invalid
    let key ← slice payload headerLen (headerLen + klen)
    advance klen
    return (some key, headerLen + klen)
  else return (none, headerLen)

def decodeReads (payload : Bytes) : Option (Except FrameDecodeError PublishPayload) :=
  let invalid := invalidPayload payload
  Reader.result (do
    failIf (payload.length < 3) invalid
    let qosByte ← getU8
    let (ttlMs, headerLen) ← ttlReads invalid qosByte 1
    let (partitionKey, headerLen) ← keyReads payload invalid qosByte headerLen
    failIf ((← remaining) < 2) invalid
    let topicLen ← getUInt 2
    let headerLen := headerLen + 2
    failIf ((← remaining) < topicLen) invalid
    let topic ← slice payload headerLen (headerLen + topicLen)
    let _ ← propagate (text invalid topic)
    let message ← slice payload (headerLen + topicLen) payload.length
    return ⟨topic, qosByte &&& qosMask, message, ttlMs, partitionKey⟩) payload

/-- A range that begins at the cursor is what stands there. -/
theorem take_drop_cursor (payload : Bytes) (headerLen len : Nat) :
    (payload.take (headerLen + len)).drop headerLen = (payload.drop headerLen).take len := by
  rw [List.drop_take, Nat.add_sub_cancel_left]

section InStep

/- The readers of the optional fields go on as the decoders do, with the offset in
step with the cursor. -/

variable {β : Type} {invalid : FrameDecodeError} {q : UInt8}

theorem result_ttlReads {f : Option Nat × Nat → Reader FrameDecodeError β}
    {g : Option Nat × Bytes → Except FrameDecodeError β} (hle : headerLen ≤ payload.length)
    (h : ∀ ttl n, n ≤ payload.length →
      (f (ttl, n)).result (payload.drop n) = some (g (ttl, payload.drop n))) :
    (ttlReads invalid q headerLen >>= f).result (payload.drop headerLen) =
      some (decodeTtl invalid q (payload.drop headerLen) >>= g) := by
  unfold ttlReads decodeTtl
  by_cases hflag : q &&& flagHasTtl ≠ 0
  · rw [if_pos hflag, if_pos hflag]
    simp only [bind_assoc, pure_bind]
    refine result_readNat fun hfour => ?_
    rw [List.drop_drop]
    rw [List.length_drop] at hfour
    exact h _ _ (by omega)
  · rw [if_neg hflag, if_neg hflag]
    exact h _ _ hle

theorem result_keyReads {f : Option Bytes × Nat → Reader FrameDecodeError β}
    {g : Option Bytes × Bytes → Except FrameDecodeError β} (hle : headerLen ≤ payload.length)
    (h : ∀ key n, n ≤ payload.length →
      (f (key, n)).result (payload.drop n) = some (g (key, payload.drop n))) :
    (keyReads payload invalid q headerLen >>= f).result (payload.drop headerLen) =
      some (decodeKey invalid q (payload.drop headerLen) >>= g) := by
  unfold keyReads decodeKey
  by_cases hflag : q &&& flagHasKey ≠ 0
  · rw [if_pos hflag, if_pos hflag]
    simp only [bind_assoc, pure_bind]
    refine result_readNat fun htwo => ?_
    rw [result_remaining]
    refine result_readBytes fun hklen => ?_
    rw [List.drop_drop] at hklen ⊢
    generalize beNat ((payload.drop headerLen).take 2) = klen at hklen ⊢
    have hend : headerLen + 2 + klen ≤ payload.length := by
      rw [List.length_drop] at htwo hklen
      omega
    rw [result_slice (Nat.le_add_right _ _) hend, result_advance hklen, take_drop_cursor,
      List.drop_drop]
    exact h _ _ hend
  · rw [if_neg hflag, if_neg hflag]
    exact h _ _ hle

end InStep

theorem decodeReads_eq (payload : Bytes) : decodeReads payload = some (decode payload) := by
  refine result_failIf rfl fun hshort => ?_
  have hone : 1 ≤ payload.length := by omega
  rw [result_getU8 hone]
  refine result_ttlReads hone fun ttl n₁ hle => ?_
  refine result_keyReads hle fun key n₂ _ => ?_
  rw [result_remaining]
  refine result_readNat fun htwo => ?_
  rw [result_remaining]
  refine result_readBytes fun htopic => ?_
  rw [List.drop_drop] at htopic ⊢
  generalize beNat ((payload.drop n₂).take 2) = topicLen at htopic ⊢
  have hend : n₂ + 2 + topicLen ≤ payload.length := by
    rw [List.length_drop] at htwo htopic
    omega
  rw [result_slice (Nat.le_add_right _ _) hend, take_drop_cursor]
  refine result_propagate fun name => ?_
  rw [result_slice hend (Nat.le_refl _), List.take_length, List.drop_drop]
  rfl

end PublishPayload

/-! ## SUBSCRIBE -/

namespace SubscribePayload

def groupReads (invalid : FrameDecodeError) (qosRaw : UInt8) :
    Reader FrameDecodeError (Option String) :=
  if qosRaw &&& flagHasGroup ≠ 0 then do
    failIf ((← remaining) < 2) invalid
    let groupLen ← getUInt 2
    failIf ((← remaining) < groupLen) invalid
    let groupBytes ← copyToBytes groupLen
    let group ← propagate (text invalid groupBytes)
    return some group
  else return none

def offsetReads (invalid : FrameDecodeError) (qosRaw : UInt8) :
    Reader FrameDecodeError (Option Nat) :=
  if qosRaw &&& flagHasOffset ≠ 0 then do
    failIf ((← remaining) < 8) invalid
    let offset ← getUInt 8
    return some offset
  else return none

def decodeReads (payload : Bytes) : Option (Except FrameDecodeError SubscribePayload) :=
  let invalid := invalidPayload payload
  Reader.result (do
    failIf (payload.length < 3) invalid
    let topicLen ← getUInt 2
    failIf ((← remaining) < topicLen + 1) invalid
    let topicBytes ← copyToBytes topicLen
    let topic ← propagate (text invalid topicBytes)
    let qosRaw ← getU8
    let group ← groupReads invalid qosRaw
    let fromOffset ← offsetReads invalid qosRaw
    return ⟨topic, qosRaw &&& qosMask, group, fromOffset⟩) payload

theorem result_groupReads {β : Type} {invalid : FrameDecodeError} {q : UInt8} {bs : Bytes}
    {f : Option String → Reader FrameDecodeError β}
    {g : Option String × Bytes → Except FrameDecodeError β}
    (h : ∀ x, (f x.1).result x.2 = some (g x)) :
    (groupReads invalid q >>= f).result bs = some (readGroup invalid q bs >>= g) := by
  unfold groupReads readGroup
  by_cases hflag : q &&& flagHasGroup ≠ 0
  · rw [if_pos hflag, if_pos hflag, decodeGroup_eq, readSized]
    simp only [bind_assoc, pure_bind]
    refine result_readNat fun _ => ?_
    rw [result_remaining]
    refine result_readBytes fun hle => ?_
    rw [result_copyToBytes hle]
    exact result_propagate fun group => h (some group, _)
  · rw [if_neg hflag, if_neg hflag]
    exact h (none, bs)

theorem result_offsetReads {β : Type} {invalid : FrameDecodeError} {q : UInt8} {bs : Bytes}
    (f : Option Nat → β) :
    (offsetReads invalid q >>= fun offset => pure (f offset)).result bs =
      some (readOffset invalid q bs >>= fun offset => .ok (f offset)) := by
  unfold offsetReads readOffset
  by_cases hflag : q &&& flagHasOffset ≠ 0
  · rw [if_pos hflag, if_pos hflag]
    simp only [bind_assoc, pure_bind]
    rw [result_remaining]
    rw [result_check fun hshort => result_getUInt (Nat.le_of_not_lt hshort) _]
    split <;> rfl
  · rw [if_neg hflag, if_neg hflag]
    rfl

theorem decodeReads_eq (payload : Bytes) : decodeReads payload = some (decode payload) := by
  rw [decode_eq]
  refine result_failIf rfl fun hshort => ?_
  rw [result_getUInt (by omega), result_remaining]
  refine result_failIf rfl fun hmissing => ?_
  generalize beNat (payload.take 2) = topicLen at hmissing ⊢
  have hone : 1 ≤ ((payload.drop 2).drop topicLen).length := by
    rw [List.length_drop]
    omega
  rw [result_copyToBytes (by omega)]
  refine result_propagate fun topic => ?_
  rw [result_getU8 hone, List.drop_drop (i := 1)]
  exact result_groupReads fun x => result_offsetReads _

end SubscribePayload

/-! ## Frames -/

/-- The frame in the bytes that were split off. -/
def frameReads : Reader FrameDecodeError Frame := do
  advance lengthFieldLen
  let msgTypeRaw ← getU8
  let msgType ← propagate (FrameType.tryFrom msgTypeRaw)
  let correlationId ← getUInt 8
  let payload ← rest
  return ⟨msgType, correlationId, payload⟩

/-- The length is read from a view of the first four bytes; a complete frame is
split off and read on its own, and the buffer keeps what is behind it. -/
def tryDecodeFrameReads (src : Bytes) :
    Option (Except FrameDecodeError (Option (Frame × Bytes))) :=
  if src.length < lengthFieldLen then some (.ok none)
  else
    Reader.result (do
      let lengthBytes ← slice src 0 lengthFieldLen
      let frameLen ← within lengthBytes (getUInt 4)
      failIf (frameLen = 0) (.invalidLength frameLen)
      failIf (maxFrameSize < frameLen) (.frameTooLarge frameLen)
      failIf (frameLen < 1 + 8) (.invalidLength frameLen)
      if src.length < lengthFieldLen + frameLen then return none
      else do
        let frameBytes ← copyToBytes (lengthFieldLen + frameLen)
        let frame ← within frameBytes frameReads
        let src ← rest
        return some (frame, src)) src

theorem frameReads_result {frameBytes : Bytes} (h : lengthFieldLen + (1 + 8) ≤ frameBytes.length) :
    frameReads.result frameBytes =
      some (FrameType.tryFrom ((frameBytes.drop lengthFieldLen).headD 0) >>= fun msgType =>
        .ok ⟨msgType, beNat (((frameBytes.drop lengthFieldLen).drop 1).take 8),
          (frameBytes.drop lengthFieldLen).drop 9⟩) := by
  have hlen : 9 ≤ (frameBytes.drop lengthFieldLen).length := by
    rw [List.length_drop]
    omega
  have height : 8 ≤ ((frameBytes.drop lengthFieldLen).drop 1).length := by
    rw [List.length_drop]
    omega
  unfold frameReads
  rw [result_advance (by omega), result_getU8 (by omega)]
  refine result_propagate fun msgType => ?_
  have hpayload : ((frameBytes.drop lengthFieldLen).drop 1).drop 8 =
      (frameBytes.drop lengthFieldLen).drop 9 := List.drop_drop
  rw [result_getUInt height, hpayload, result_rest]
  rfl

theorem tryDecodeFrameReads_eq (src : Bytes) :
    tryDecodeFrameReads src = some (tryDecodeFrame src) := by
  unfold tryDecodeFrameReads tryDecodeFrame
  dsimp only
  by_cases hshort : src.length < lengthFieldLen
  · rw [if_pos hshort, if_pos hshort]
  have hlen : lengthFieldLen ≤ src.length := Nat.le_of_not_lt hshort
  have hview : (src.take lengthFieldLen).length = 4 := List.length_take_of_le hlen
  have hframeLen : (getUInt 4 : Reader FrameDecodeError Nat).result (src.take lengthFieldLen) =
      some (.ok (beNat (src.take lengthFieldLen))) := by
    rw [getUInt_result (Nat.le_of_eq hview.symm), List.take_of_length_le (Nat.le_of_eq hview)]
  rw [if_neg hshort, if_neg hshort, result_slice (Nat.zero_le _) hlen, List.drop_zero,
    result_bind_ok (run_within hframeLen)]
  generalize beNat (src.take lengthFieldLen) = frameLen
  refine result_failIf rfl fun _ => ?_
  refine result_failIf rfl fun _ => ?_
  refine result_failIf rfl fun hsmall => ?_
  by_cases hmissing : src.length < lengthFieldLen + frameLen
  · rw [if_pos hmissing, if_pos hmissing]
    rfl
  rw [if_neg hmissing, if_neg hmissing]
  have hsplit : lengthFieldLen + frameLen ≤ src.length := Nat.le_of_not_lt hmissing
  have hlong : lengthFieldLen + (1 + 8) ≤ (src.take (lengthFieldLen + frameLen)).length := by
    rw [List.length_take_of_le hsplit]
    omega
  rw [result_copyToBytes hsplit, result_within (frameReads_result hlong) fun frame => rfl]
  cases FrameType.tryFrom (((src.take (lengthFieldLen + frameLen)).drop lengthFieldLen).headD 0) <;>
    rfl

/-! ## Where the fields stand

A field with a length is the range of bytes that its length field announces. -/

theorem AuthPayload.announced_of_decode {b : Bytes} {p : AuthPayload} (h : decode b = .ok p) :
    Announced b 0 (utf8 p.apiKey) := by
  obtain ⟨hlt, rfl⟩ := encode_iff.mp (decode_iff.mp h)
  exact (announced_sized hlt (List.append_nil _).symm).1

theorem NackPayload.announced_of_decode {b : Bytes} {p : NackPayload} (h : decode b = .ok p) :
    Announced b 2 (utf8 p.message) := by
  obtain ⟨-, hencode⟩ := decode_iff.mp h
  obtain ⟨hlt, rfl⟩ := encode_iff.mp hencode
  have hat : (beBytes 2 p.code ++ sized (utf8 p.message)).drop 2 =
      sized (utf8 p.message) ++ [] := by
    rw [List.drop_left' (beBytes_length ..), List.append_nil]
  exact (announced_sized hlt hat).1

theorem DeliverPayload.announced_of_decode {b : Bytes} {p : DeliverPayload}
    (h : decode b = .ok p) : Announced b 9 (utf8 p.topic) := by
  obtain ⟨-, hencode⟩ := decode_iff.mp h
  obtain ⟨hlt, rfl⟩ := encode_iff.mp hencode
  exact (announced_sized hlt (List.drop_left' (beBytes_length 8 p.deliveryTag))).1

namespace PublishPayload

/-- Where the key begins with its length, if there is one: behind the flag byte and
the time to live. -/
def keyPos (p : PublishPayload) : Nat := 1 + (p.ttlMs.elim [] (beBytes 4)).length

def topicPos (p : PublishPayload) : Nat := p.keyPos + (p.partitionKey.elim [] sized).length

/-- The key and the topic are the ranges announced, the message is the rest. -/
structure Placed (b : Bytes) (p : PublishPayload) : Prop where
  key : ∀ key, p.partitionKey = some key → Announced b p.keyPos key
  topic : Announced b p.topicPos p.topic
  message : b.drop (p.topicPos + 2 + p.topic.length) = p.message

theorem placed_of_decode {b : Bytes} {p : PublishPayload} (h : decode b = .ok p) :
    Placed b p := by
  obtain ⟨-, hfits, q, -, rfl⟩ := decode_iff.mp h
  have hkeyAt : (p.bytes q).drop p.keyPos =
      p.partitionKey.elim [] sized ++ (sized p.topic ++ p.message) := by
    rw [bytes, keyPos, Nat.add_comm, List.drop_succ_cons, List.drop_left]
  have htopicAt : (p.bytes q).drop p.topicPos = sized p.topic ++ p.message := by
    rw [topicPos, ← List.drop_drop, hkeyAt, List.drop_left]
  obtain ⟨htopic, hmessage⟩ := announced_sized hfits.topic htopicAt
  refine ⟨fun key hkey => ?_, htopic, hmessage⟩
  rw [hkey] at hkeyAt
  exact (announced_sized (hfits.partitionKey key hkey) hkeyAt).1

end PublishPayload

/-- The topic stands in front of the flag byte, the group behind it. -/
structure SubscribePayload.Placed (b : Bytes) (p : SubscribePayload) : Prop where
  topic : Announced b 0 (utf8 p.topic)
  group : ∀ group, p.group = some group →
    Announced b (2 + (utf8 p.topic).length + 1) (utf8 group)

theorem SubscribePayload.placed_of_decode {b : Bytes} {p : SubscribePayload}
    (h : decode b = .ok p) : Placed b p := by
  obtain ⟨-, hfits, q, trailing, -, rfl⟩ := decode_iff.mp h
  have hat : (p.bytes q ++ trailing).drop 0 = sized (utf8 p.topic) ++ _ := List.append_assoc ..
  obtain ⟨htopic, hbehind⟩ := announced_sized hfits.topic hat
  refine ⟨htopic, fun group hgroup => ?_⟩
  rw [Nat.zero_add, hgroup] at hbehind
  have hgroupAt : (p.bytes q ++ trailing).drop (2 + (utf8 p.topic).length + 1) =
      sized (utf8 group) ++ (p.fromOffset.elim [] (beBytes 8) ++ trailing) := by
    rw [← List.drop_drop, hbehind]
    exact List.append_assoc ..
  exact (announced_sized (hfits.group group hgroup) hgroupAt).1

/-- The frame ends where its length says, and what is behind it stays. -/
def FramePlaced (src : Bytes) : Option (Frame × Bytes) → Prop
  | none => True
  | some (frame, rest) =>
    let frameEnd := lengthFieldLen + beNat (src.take lengthFieldLen)
    frame.payload = (src.take frameEnd).drop 13 ∧ rest = src.drop frameEnd

theorem framePlaced_of_tryDecodeFrame {src : Bytes} {decoded : Option (Frame × Bytes)}
    (h : tryDecodeFrame src = .ok decoded) : FramePlaced src decoded := by
  cases decoded with
  | none => trivial
  | some r =>
    obtain ⟨frame, rest⟩ := r
    unfold tryDecodeFrame at h
    dsimp only at h
    repeat' split at h
    all_goals cases h
    exact ⟨List.drop_drop, rfl⟩

/-! ## No input crashes a decoder -/

/-- Whatever the bytes, every read has enough of them, the reads come to what
`decode` says, and in a value they come to the fields are in place. -/
structure NeverPanics {ε α : Type} (reads : Bytes → Option (Except ε α))
    (decode : Bytes → Except ε α) (placed : Bytes → α → Prop) : Prop where
  reads : ∀ b, reads b = some (decode b)
  placed : ∀ b v, decode b = .ok v → placed b v

/-- No decoder of frames, payloads or log entries panics, and the fields with a length
are the ranges that their lengths announce. The decoder of checkpoints does not panic
either, but it asks for a table of the size the file announces: it ends with a result
just if that can be had, and it asks for little if the file has room for the cursors
it announces. -/
theorem decoders_never_panic (E : Externals) :
    NeverPanics tryDecodeFrameReads tryDecodeFrame FramePlaced ∧
    NeverPanics HelloPayload.decodeReads HelloPayload.decode (fun _ _ => True) ∧
    NeverPanics AuthPayload.decodeReads AuthPayload.decode
      (fun b p => Announced b 0 (utf8 p.apiKey)) ∧
    NeverPanics AckPayload.decodeReads AckPayload.decode (fun _ _ => True) ∧
    NeverPanics NackPayload.decodeReads NackPayload.decode
      (fun b p => Announced b 2 (utf8 p.message)) ∧
    NeverPanics PublishPayload.decodeReads PublishPayload.decode PublishPayload.Placed ∧
    NeverPanics SubscribePayload.decodeReads SubscribePayload.decode SubscribePayload.Placed ∧
    NeverPanics PollPayload.decodeReads PollPayload.decode (fun _ _ => True) ∧
    NeverPanics DeliverPayload.decodeReads DeliverPayload.decode
      (fun b p => Announced b 9 (utf8 p.topic)) ∧
    NeverPanics WalEntry.decodeReads WalEntry.decode WalEntry.Placed ∧
    (∀ limit b,
      (CheckpointSnapshot.decodeReads E limit b = some (CheckpointSnapshot.decode E b) ↔
        ∀ n ∈ CheckpointSnapshot.announced E b, CheckpointSnapshot.tableBytes n ≤ limit) ∧
      ((∀ n ∈ CheckpointSnapshot.announced E b, 12 * n ≤ b.length - 28) →
        11 * b.length + 472 ≤ limit →
        CheckpointSnapshot.decodeReads E limit b = some (CheckpointSnapshot.decode E b))) ∧
    ∀ b v, CheckpointSnapshot.decode E b = .ok v → CheckpointSnapshot.Placed b v := by
  refine ⟨⟨tryDecodeFrameReads_eq, ?_⟩, ⟨HelloPayload.decodeReads_eq, ?_⟩,
    ⟨AuthPayload.decodeReads_eq, ?_⟩, ⟨AckPayload.decodeReads_eq, ?_⟩,
    ⟨NackPayload.decodeReads_eq, ?_⟩, ⟨PublishPayload.decodeReads_eq, ?_⟩,
    ⟨SubscribePayload.decodeReads_eq, ?_⟩, ⟨PollPayload.decodeReads_eq, ?_⟩,
    ⟨DeliverPayload.decodeReads_eq, ?_⟩, ⟨WalEntry.decodeReads_eq, ?_⟩, ?_, ?_⟩
  · exact fun _ _ => framePlaced_of_tryDecodeFrame
  · exact fun _ _ _ => trivial
  · exact fun _ _ => AuthPayload.announced_of_decode
  · exact fun _ _ _ => trivial
  · exact fun _ _ => NackPayload.announced_of_decode
  · exact fun _ _ => PublishPayload.placed_of_decode
  · exact fun _ _ => SubscribePayload.placed_of_decode
  · exact fun _ _ _ => trivial
  · exact fun _ _ => DeliverPayload.announced_of_decode
  · exact fun _ _ => WalEntry.placed_of_decode
  · intro limit b
    rw [CheckpointSnapshot.decodeReads_eq]
    constructor
    · split
      · rename_i hfits
        exact iff_of_true rfl hfits
      · rename_i hnot
        exact iff_of_false (by simp) hnot
    · intro hroom hlimit
      refine if_pos fun n hn => ?_
      have hle := CheckpointSnapshot.tableBytes_le (hroom n hn)
      omega
  · exact fun _ _ => CheckpointSnapshot.placed_of_decode

/-- A file without a cursor that announces 4294967295 of them. -/
def announcesTooMuch : Bytes :=
  let body := CheckpointSnapshot.checkpointMagic ++
    beBytes 4 CheckpointSnapshot.checkpointVersion ++ beBytes 8 0 ++ beBytes 4 4294967295
  body ++ beBytes 4 (Crc32.crc32 body).toNat

/-- Its 28 bytes make the decoder ask for more than 400 GiB, and end the process that
does not get them. -/
theorem checkpoint_decoder_aborts :
    announcesTooMuch.length = 28 ∧
      CheckpointSnapshot.tableBytes 4294967295 = 57 * 2 ^ 33 + 16 ∧
      CheckpointSnapshot.decodeReads ⟨fun _ => 0, Crc32.crc32, fun buf _ _ _ _ => buf⟩
        (400 * 2 ^ 30) announcesTooMuch = none := by
  refine ⟨by decide +kernel, by decide +kernel, ?_⟩
  rw [CheckpointSnapshot.decodeReads_eq]
  exact if_neg (by decide +kernel)

end BlipMQ.Net
