import BlipMQ.Wal.Record

/-!
# Broker — entries of the log

What the broker stores as the payload of a WAL record: a published message
or the acknowledgement of one. The first byte tells them apart, lengths
and ids are big-endian.
-/

namespace BlipMQ.Core

open Wal (WalError WalRecord)

inductive QoSLevel where
  | atMostOnce
  | atLeastOnce
  deriving DecidableEq, Repr

structure WalMessageRecord where
  topic : String
  qos : QoSLevel
  payload : Bytes
  deriving DecidableEq, Repr

structure WalAckRecord where
  clientId : String
  topic : String
  ackedWalId : Nat
  deriving DecidableEq, Repr

inductive WalEntry where
  | message (m : WalMessageRecord)
  | ack (a : WalAckRecord)
  deriving DecidableEq, Repr

def walKindMessage : UInt8 := 1
def walKindAck : UInt8 := 2

/-! ## Encoding -/

def QoSLevel.toByte : QoSLevel → UInt8
  | .atMostOnce => 0
  | .atLeastOnce => 1

def WalMessageRecord.encodeWithKind (m : WalMessageRecord) : Except WalError Bytes :=
  let topicBytes := utf8 m.topic
  if 2 ^ 16 ≤ topicBytes.length then .error (.corruption "topic name too long for WAL record")
  else .ok (walKindMessage :: m.qos.toByte :: (beBytes 2 topicBytes.length ++
    (topicBytes ++ m.payload)))

def WalAckRecord.encodeWithKind (a : WalAckRecord) : Except WalError Bytes :=
  let cidBytes := utf8 a.clientId
  let topicBytes := utf8 a.topic
  if 2 ^ 16 ≤ cidBytes.length then .error (.corruption "client_id too long for WAL ack")
  else if 2 ^ 16 ≤ topicBytes.length then .error (.corruption "topic too long for WAL ack")
  else .ok (walKindAck :: (beBytes 2 cidBytes.length ++ (cidBytes ++
    (beBytes 2 topicBytes.length ++ (topicBytes ++ beBytes 8 a.ackedWalId)))))

def WalEntry.encode : WalEntry → Except WalError Bytes
  | .message m => m.encodeWithKind
  | .ack a => a.encodeWithKind

/-! ## Decoding -/

/-- `String::from_utf8` with the error the caller gives it. -/
def textOr (reason : String) (bs : Bytes) : Except WalError String :=
  match fromUtf8 bs with
  | none => .error (.corruption reason)
  | some s => .ok s

def QoSLevel.ofByte (b : UInt8) : Except WalError QoSLevel :=
  if b = 0 then .ok .atMostOnce
  else if b = 1 then .ok .atLeastOnce
  else .error (.corruption s!"invalid QoS value {b.toNat} in WAL record")

/-- The kind byte is consumed; `slice` walks over the rest. -/
def WalMessageRecord.decodeAfterKind : Bytes → Except WalError WalMessageRecord
  | qosByte :: b₁ :: b₂ :: slice => do
    let qos ← QoSLevel.ofByte qosByte
    let topicLen := beNat [b₁, b₂]
    if slice.length < topicLen then
      .error (.corruption "WAL record truncated while reading topic")
    let topic ← textOr "topic name in WAL record is not valid UTF-8" (slice.take topicLen)
    return ⟨topic, qos, slice.drop topicLen⟩
  | _ => .error (.corruption "WAL message record too short")

def WalAckRecord.decodeAfterKind (bytes : Bytes) : Except WalError WalAckRecord := do
  if bytes.length < 2 then .error (.corruption "ack record too short")
  let cidLen := beNat (bytes.take 2)
  let slice := bytes.drop 2
  if slice.length < cidLen + 2 then .error (.corruption "ack: cid len overflow")
  let clientId ← textOr "ack: invalid client_id utf8" (slice.take cidLen)
  let slice := slice.drop cidLen
  let topicLen := beNat (slice.take 2)
  let slice := slice.drop 2
  if slice.length < topicLen + 8 then .error (.corruption "ack: topic len overflow")
  let topic ← textOr "ack: invalid topic utf8" (slice.take topicLen)
  return ⟨clientId, topic, beNat ((slice.drop topicLen).take 8)⟩

def WalEntry.decode : Bytes → Except WalError WalEntry
  | [] => .error (.corruption "empty WAL entry")
  | kind :: rest =>
    if kind = walKindMessage then (WalMessageRecord.decodeAfterKind rest).map .message
    else if kind = walKindAck then (WalAckRecord.decodeAfterKind rest).map .ack
    else .error (.corruption s!"unknown WAL entry kind {kind.toNat}")

/-! ## Reading back what was written -/

@[simp] theorem textOr_utf8 (reason s : String) : textOr reason (utf8 s) = .ok s := by
  simp [textOr]

theorem textOr_eq_ok {reason s : String} {bs : Bytes} :
    textOr reason bs = .ok s ↔ bs = utf8 s := by
  rw [← fromUtf8_eq_some]
  unfold textOr
  cases fromUtf8 bs <;> simp

@[simp] theorem QoSLevel.ofByte_toByte (q : QoSLevel) : ofByte q.toByte = .ok q := by
  cases q <;> rfl

variable {m : WalMessageRecord}

theorem WalMessageRecord.decode_encode {rest : Bytes}
    (h : m.encodeWithKind = .ok (walKindMessage :: rest)) : decodeAfterKind rest = .ok m := by
  unfold encodeWithKind at h
  dsimp only at h
  obtain ⟨hlen, h⟩ := guard_eq_ok.mp h
  have hlt : (utf8 m.topic).length < 256 ^ 2 := Nat.lt_of_not_le hlen
  obtain ⟨b₁, b₂, hbe⟩ : ∃ b₁ b₂, beBytes 2 (utf8 m.topic).length = [b₁, b₂] :=
    List.length_eq_two.mp (beBytes_length 2 _)
  have hnat := beNat_beBytes hlt
  rw [hbe] at h hnat
  cases h
  simp [decodeAfterKind, hnat, Bind.bind, Except.bind, Pure.pure, Except.pure]

variable {a : WalAckRecord} {bytes : Bytes} {r : WalRecord}

theorem WalAckRecord.decode_encode (hid : a.ackedWalId < 2 ^ 64) {rest : Bytes}
    (h : a.encodeWithKind = .ok (walKindAck :: rest)) : decodeAfterKind rest = .ok a := by
  unfold encodeWithKind at h
  dsimp only at h
  obtain ⟨hcid, h⟩ := guard_eq_ok.mp h
  obtain ⟨htopic, h⟩ := guard_eq_ok.mp h
  cases h
  have hc : (utf8 a.clientId).length < 256 ^ 2 := Nat.lt_of_not_le hcid
  have ht : (utf8 a.topic).length < 256 ^ 2 := Nat.lt_of_not_le htopic
  have hi : a.ackedWalId < 256 ^ 8 := hid
  have h8 : (beBytes 8 a.ackedWalId).take 8 = beBytes 8 a.ackedWalId :=
    List.take_of_length_le (by simp)
  have hshort : ∀ n, ¬ 2 + n < 2 := fun n => by omega
  simp [decodeAfterKind, hshort, beNat_beBytes hc, beNat_beBytes ht, beNat_beBytes hi, h8,
    Bind.bind, Except.bind, Pure.pure, Except.pure]

/-- **An entry that was encoded is read back as itself.** -/
theorem WalEntry.decode_encode {e : WalEntry} (h : e.encode = .ok bytes)
    (hid : ∀ a, e = .ack a → a.ackedWalId < 2 ^ 64) : decode bytes = .ok e := by
  cases e with
  | message m =>
    obtain ⟨rest, rfl⟩ : ∃ rest, bytes = walKindMessage :: rest := by
      unfold encode WalMessageRecord.encodeWithKind at h
      dsimp only at h
      split at h <;> cases h
      exact ⟨_, rfl⟩
    have hm := WalMessageRecord.decode_encode (m := m) h
    rw [decode, if_pos rfl, hm]
    rfl
  | ack a =>
    obtain ⟨rest, rfl⟩ : ∃ rest, bytes = walKindAck :: rest := by
      unfold encode WalAckRecord.encodeWithKind at h
      dsimp only at h
      split at h
      · cases h
      · split at h <;> cases h
        exact ⟨_, rfl⟩
    have ha := WalAckRecord.decode_encode (hid a rfl) h
    rw [decode, if_neg (by decide), if_pos rfl, ha]
    rfl

/-! ## The bytes of an entry -/

/-- A message that was read stands behind its QoS byte, its topic behind its
length. -/
theorem WalMessageRecord.layout (h : decodeAfterKind bytes = .ok m) :
    (utf8 m.topic).length < 256 ^ 2 ∧ ∃ q, bytes = q :: (sized (utf8 m.topic) ++ m.payload) := by
  unfold decodeAfterKind at h
  match bytes with
  | [] | [_] | [_, _] => cases h
  | q :: b₁ :: b₂ :: slice =>
    obtain ⟨qos, -, h⟩ := bind_eq_ok.mp h
    dsimp only at h
    obtain ⟨hmissing, h⟩ := guard_eq_ok.mp h
    obtain ⟨topic, htext, h⟩ := bind_eq_ok.mp h
    cases h
    have htwo : 2 ≤ (b₁ :: b₂ :: slice).length :=
      Nat.succ_le_succ (Nat.succ_le_succ (Nat.zero_le _))
    have hsized := split_sized htwo (Nat.le_of_not_lt hmissing)
    have hfield : ((b₁ :: b₂ :: slice).drop 2).take (beNat ((b₁ :: b₂ :: slice).take 2)) =
        utf8 topic := textOr_eq_ok.mp htext
    rw [hfield] at hsized
    exact ⟨hsized.1, q, congrArg (q :: ·) hsized.2⟩

/-- The names of an acknowledgement that was read stand behind their lengths. -/
theorem WalAckRecord.layout (h : decodeAfterKind bytes = .ok a) :
    (utf8 a.clientId).length < 256 ^ 2 ∧ (utf8 a.topic).length < 256 ^ 2 ∧
      ∃ rest, bytes = sized (utf8 a.clientId) ++ (sized (utf8 a.topic) ++ rest) := by
  unfold decodeAfterKind at h
  dsimp only at h
  obtain ⟨hshort, h⟩ := guard_eq_ok.mp h
  obtain ⟨hcid, h⟩ := guard_eq_ok.mp h
  obtain ⟨clientId, hclient, h⟩ := bind_eq_ok.mp h
  obtain ⟨hclt, hbytes⟩ := split_sized (Nat.le_of_not_lt hshort) (by omega)
  rw [textOr_eq_ok.mp hclient] at hclt hbytes
  generalize hslice : (bytes.drop 2).drop (beNat (bytes.take 2)) = slice at h hbytes
  obtain ⟨htopic, h⟩ := guard_eq_ok.mp h
  obtain ⟨topic, htext, h⟩ := bind_eq_ok.mp h
  cases h
  have htwo : 2 ≤ slice.length := by
    rw [← hslice, List.length_drop]
    omega
  obtain ⟨htlt, hrest⟩ := split_sized htwo (by omega)
  rw [textOr_eq_ok.mp htext] at htlt hrest
  exact ⟨hclt, htlt, _, by rw [hbytes, hrest]⟩

/-- The encoders of two names fail for a name that is too long. -/
theorem names_ok_iff {limit m n : Nat} {e e' : WalError} {b : Bytes} :
    (∃ bytes, (if limit ≤ m then .error e else if limit ≤ n then .error e' else .ok b :
        Except WalError Bytes) = .ok bytes) ↔ m < limit ∧ n < limit := by
  by_cases hm : limit ≤ m
  · refine iff_of_false ?_ fun h => absurd h.1 (Nat.not_lt_of_le hm)
    rw [if_pos hm]
    rintro ⟨bytes, h⟩
    cases h
  rw [if_neg hm]
  by_cases hn : limit ≤ n
  · refine iff_of_false ?_ fun h => absurd h.2 (Nat.not_lt_of_le hn)
    rw [if_pos hn]
    rintro ⟨bytes, h⟩
    cases h
  rw [if_neg hn]
  exact iff_of_true ⟨b, rfl⟩ ⟨Nat.lt_of_not_le hm, Nat.lt_of_not_le hn⟩

/-- The names in the entry are short enough for their length fields. -/
def WalEntry.Fits : WalEntry → Prop
  | .message m => (utf8 m.topic).length < 2 ^ 16
  | .ack a => (utf8 a.clientId).length < 2 ^ 16 ∧ (utf8 a.topic).length < 2 ^ 16

theorem WalEntry.encode_ok_iff {e : WalEntry} : (∃ bytes, e.encode = .ok bytes) ↔ e.Fits := by
  cases e with
  | message m =>
    unfold encode WalMessageRecord.encodeWithKind Fits
    by_cases htopic : 2 ^ 16 ≤ (utf8 m.topic).length
    · refine iff_of_false ?_ (Nat.not_lt_of_le htopic)
      rintro ⟨bytes, h⟩
      dsimp only at h
      rw [if_pos htopic] at h
      cases h
    · exact iff_of_true ⟨_, if_neg htopic⟩ (Nat.lt_of_not_le htopic)
  | ack a => exact names_ok_iff

example : (WalEntry.ack ⟨"c", "t", 7⟩).encode =
    .ok [2, 0, 1, 99, 0, 1, 116, 0, 0, 0, 0, 0, 0, 0, 7] := by decide +kernel

/-! ## Records of the log -/

/-- The message a record holds, if it decodes to one. -/
def message? (r : WalRecord) : Option WalMessageRecord :=
  match WalEntry.decode r.payload with
  | .ok (.message m) => some m
  | _ => none

/-- The acknowledgement a record holds, if it decodes to one. -/
def ack? (r : WalRecord) : Option WalAckRecord :=
  match WalEntry.decode r.payload with
  | .ok (.ack a) => some a
  | _ => none

theorem message?_of_encode (h : (WalEntry.message m).encode = .ok r.payload) :
    message? r = some m := by
  rw [message?, WalEntry.decode_encode h nofun]

theorem ack?_of_encode (h : (WalEntry.ack a).encode = .ok r.payload) (hid : a.ackedWalId < 2 ^ 64) :
    ack? r = some a := by
  rw [ack?, WalEntry.decode_encode h fun a' ha => by cases ha; exact hid]

theorem ack?_of_encode_message (h : (WalEntry.message m).encode = .ok r.payload) :
    ack? r = none := by
  rw [ack?, WalEntry.decode_encode h nofun]

end BlipMQ.Core
