import BlipMQ.Net.Frame

/-!
# Net — the bytes of a payload

For each type of payload, exactly which byte strings its decoder accepts
and as what. Six of the eight decoders are the inverses of their encoders.
PUBLISH and SUBSCRIBE look at four bits of their flag byte and pass over
the other four; SUBSCRIBE does not look at what stands behind its fields.
-/

namespace BlipMQ.Net

/-! ## Reading fields -/

section Fields

variable {invalid : FrameDecodeError} {slice rest : Bytes}

theorem readNat_iff {width v : Nat} :
    readNat invalid width slice = .ok (v, rest) ↔
      v < 256 ^ width ∧ slice = beBytes width v ++ rest :=
  readNat_eq_ok.trans take_beNat_iff

theorem readBytes_iff {len : Nat} {field : Bytes} :
    readBytes invalid len slice = .ok (field, rest) ↔
      field.length = len ∧ slice = field ++ rest :=
  readBytes_eq_ok.trans take_drop_iff

theorem text_eq_ok {bs : Bytes} {s : String} : text invalid bs = .ok s ↔ bs = utf8 s := by
  rw [← fromUtf8_eq_some]
  unfold text
  cases fromUtf8 bs <;> simp

/-- A payload that is one number. -/
theorem beNat_iff {width v : Nat} {bs : Bytes} :
    bs.length = width ∧ beNat bs = v ↔ v < 256 ^ width ∧ bs = beBytes width v := by
  constructor
  · rintro ⟨rfl, rfl⟩
    exact ⟨beNat_lt bs, (beBytes_beNat bs).symm⟩
  · rintro ⟨hlt, rfl⟩
    exact ⟨beBytes_length .., beNat_beBytes hlt⟩

/-- A length and the bytes it announces, one read after the other. -/
def readSized (invalid : FrameDecodeError) (slice : Bytes) :
    Except FrameDecodeError (Bytes × Bytes) :=
  readNat invalid 2 slice >>= fun x => readBytes invalid x.1 x.2

theorem readSized_iff {field : Bytes} :
    readSized invalid slice = .ok (field, rest) ↔
      field.length < 2 ^ 16 ∧ slice = sized field ++ rest := by
  rw [readSized, bind_eq_ok]
  constructor
  · rintro ⟨⟨len, after⟩, hlen, hfield⟩
    obtain ⟨hlt, rfl⟩ := readNat_iff.mp hlen
    obtain ⟨rfl, rfl⟩ := readBytes_iff.mp hfield
    exact ⟨hlt, by rw [sized, List.append_assoc]⟩
  · rintro ⟨hlt, rfl⟩
    refine ⟨(field.length, field ++ rest), readNat_iff.mpr ⟨hlt, ?_⟩, readBytes_iff.mpr ⟨rfl, rfl⟩⟩
    rw [sized, List.append_assoc]

/-- A read of an optional field: it is there just if the flag is set. -/
theorem readOptional_iff {α : Type} {flag : Prop} [Decidable flag]
    {read : Bytes → Except FrameDecodeError (α × Bytes)} {put : α → Bytes} {valid : α → Prop}
    (hread : ∀ slice v rest, read slice = .ok (v, rest) ↔ valid v ∧ slice = put v ++ rest)
    {field : Option α} :
    (if flag then read slice >>= fun x => pure (some x.1, x.2) else .ok (none, slice)) =
        Except.ok (field, rest) ↔
      (flag ↔ field.isSome = true) ∧ (∀ v, field = some v → valid v) ∧
        slice = field.elim [] put ++ rest := by
  by_cases hflag : flag
  · rw [if_pos hflag, bind_eq_ok]
    cases field with
    | none =>
      refine iff_of_false ?_ (by simp [hflag])
      rintro ⟨x, -, hx⟩
      cases hx
    | some v =>
      constructor
      · rintro ⟨⟨v', rest'⟩, hv, hx⟩
        cases hx
        obtain ⟨hvalid, hslice⟩ := (hread _ _ _).mp hv
        refine ⟨iff_of_true hflag rfl, ?_, hslice⟩
        intro w hw
        cases hw
        exact hvalid
      · rintro ⟨-, hvalid, hslice⟩
        exact ⟨(v, rest), (hread _ _ _).mpr ⟨hvalid v rfl, hslice⟩, rfl⟩
  · rw [if_neg hflag]
    cases field with
    | none => simp [hflag]
    | some v => simp [hflag]

end Fields

/-! ## Flag bytes -/

/-- A QoS in the low two bits and two flags in the high two. -/
def flagByte (qos : UInt8) (high low : Bool) : UInt8 :=
  let q := qos &&& 0x03
  let q := if high then q ||| 0x80 else q
  if low then q ||| 0x40 else q

/-- The bits of a flag byte that no decoder looks at. -/
def undefinedBits : UInt8 := 0x3C

theorem flagByte_qos (q : UInt8) (high low : Bool) : flagByte q high low &&& 0x03 = q &&& 0x03 := by
  obtain ⟨⟨i⟩⟩ := q
  revert i high low
  decide +kernel

theorem flagByte_flags (q : UInt8) (high low : Bool) :
    (flagByte q high low &&& 0x80 ≠ 0 ↔ high = true) ∧
      (flagByte q high low &&& 0x40 ≠ 0 ↔ low = true) := by
  obtain ⟨⟨i⟩⟩ := q
  revert i high low
  decide +kernel

/-- A byte without undefined bits is the one its QoS and its flags make. -/
theorem eq_flagByte_self_iff (q : UInt8) :
    q = flagByte (q &&& 0x03) (q &&& 0x80 ≠ 0) (q &&& 0x40 ≠ 0) ↔ q &&& undefinedBits = 0 := by
  obtain ⟨⟨i⟩⟩ := q
  revert i
  decide +kernel

theorem eq_flagByte_iff {q qos : UInt8} {high low : Bool} (hqos : q &&& 0x03 = qos)
    (hhigh : q &&& 0x80 ≠ 0 ↔ high = true) (hlow : q &&& 0x40 ≠ 0 ↔ low = true) :
    q = flagByte qos high low ↔ q &&& undefinedBits = 0 := by
  have hhigh' : decide (q &&& 0x80 ≠ 0) = high :=
    Bool.eq_iff_iff.mpr (decide_eq_true_iff.trans hhigh)
  have hlow' : decide (q &&& 0x40 ≠ 0) = low :=
    Bool.eq_iff_iff.mpr (decide_eq_true_iff.trans hlow)
  rw [← hqos, ← hhigh', ← hlow']
  exact eq_flagByte_self_iff q

theorem qos_le_iff (q : UInt8) : q ≤ 3 ↔ q &&& 0x03 = q := by
  obtain ⟨⟨i⟩⟩ := q
  revert i
  decide +kernel

/-! ## HELLO, ACK, POLL, AUTH, NACK and DELIVER

Each of these is decoded to `p` just if it is what `p` is encoded to. -/

variable {b : Bytes} {α : Type}

/-- The decoders of payloads that are one number. -/
theorem decodeNumber_iff (mk : Nat → α) (hmk : Function.Injective mk) {width v : Nat}
    {e : FrameDecodeError} :
    (if b.length ≠ width then .error e else .ok (mk (beNat b))) = Except.ok (mk v) ↔
      v < 256 ^ width ∧ beBytes width v = b := by
  rw [eq_comm (a := beBytes width v), ← beNat_iff]
  by_cases hlen : b.length = width
  · simp [hlen, hmk.eq_iff]
  · simp [hlen]

theorem HelloPayload.decode_iff {p : HelloPayload} :
    decode b = .ok p ↔ p.protocolVersion < 2 ^ 16 ∧ p.encode = b :=
  decodeNumber_iff HelloPayload.mk fun _ _ h => HelloPayload.mk.inj h

theorem AckPayload.decode_iff {p : AckPayload} :
    decode b = .ok p ↔ p.subscriptionId < 2 ^ 64 ∧ p.encode = .ok b := by
  rw [encode, Except.ok.injEq]
  exact decodeNumber_iff AckPayload.mk fun _ _ h => AckPayload.mk.inj h

theorem PollPayload.decode_iff {p : PollPayload} :
    decode b = .ok p ↔ p.subscriptionId < 2 ^ 64 ∧ p.encode = .ok b := by
  rw [encode, Except.ok.injEq]
  exact decodeNumber_iff PollPayload.mk fun _ _ h => PollPayload.mk.inj h

/-- The encoders that refuse a field of `limit` bytes or more. -/
theorem ite_eq_ok_iff {limit len : Nat} {e : FrameEncodeError} {b' : Bytes} :
    (if limit ≤ len then .error e else .ok b' : Except FrameEncodeError Bytes) = .ok b ↔
      len < limit ∧ b' = b := by
  rw [guard_eq_ok, Nat.not_le, Except.ok.injEq]

theorem ok_iff_of {fits : Prop} {b' : Bytes} (h : fits) :
    (.ok b' : Except FrameEncodeError Bytes) = .ok b ↔ fits ∧ b' = b := by
  rw [Except.ok.injEq, and_iff_right h]

theorem AuthPayload.encode_iff {p : AuthPayload} :
    p.encode = .ok b ↔ (utf8 p.apiKey).length < 2 ^ 16 ∧ sized (utf8 p.apiKey) = b :=
  ite_eq_ok_iff

/-- A text at the end of the payload, behind its length. -/
theorem exactText_iff {invalid : FrameDecodeError} (mk : String → α) {slice : Bytes} {p : α} :
    (readNat invalid 2 slice >>= fun x =>
      if x.2.length ≠ x.1 then .error invalid >>= fun _ : Unit => text invalid x.2 >>= fun s =>
        pure (mk s)
      else text invalid x.2 >>= fun s => pure (mk s)) = Except.ok p ↔
      ∃ s, (utf8 s).length < 2 ^ 16 ∧ slice = sized (utf8 s) ∧ mk s = p := by
  rw [bind_eq_ok]
  constructor
  · rintro ⟨⟨len, rest⟩, hlen, h⟩
    obtain ⟨hlt, rfl⟩ := readNat_iff.mp hlen
    dsimp only at h
    by_cases hexact : rest.length = len
    · rw [if_neg (not_not_intro hexact)] at h
      obtain ⟨s, htext, h⟩ := bind_eq_ok.mp h
      cases h
      obtain rfl := text_eq_ok.mp htext
      exact ⟨s, hexact ▸ hlt, by rw [sized, hexact], rfl⟩
    · rw [if_pos hexact] at h
      cases h
  · rintro ⟨s, hlt, rfl, rfl⟩
    refine ⟨(_, utf8 s), readNat_iff.mpr ⟨hlt, rfl⟩, ?_⟩
    rw [if_neg (not_not_intro rfl)]
    exact bind_eq_ok.mpr ⟨s, text_eq_ok.mpr rfl, rfl⟩

theorem AuthPayload.decode_iff {p : AuthPayload} : decode b = .ok p ↔ p.encode = .ok b := by
  rw [encode_iff]
  refine (exactText_iff AuthPayload.mk).trans ⟨?_, ?_⟩
  · rintro ⟨s, hlt, rfl, rfl⟩
    exact ⟨hlt, rfl⟩
  · rintro ⟨hlt, rfl⟩
    exact ⟨p.apiKey, hlt, rfl, rfl⟩

theorem NackPayload.encode_iff {p : NackPayload} :
    p.encode = .ok b ↔
      (utf8 p.message).length < 2 ^ 16 ∧ beBytes 2 p.code ++ sized (utf8 p.message) = b :=
  ite_eq_ok_iff

theorem NackPayload.decode_iff {p : NackPayload} :
    decode b = .ok p ↔ p.code < 2 ^ 16 ∧ p.encode = .ok b := by
  rw [encode_iff]
  unfold decode
  dsimp only
  constructor
  · intro h
    obtain ⟨hshort, h⟩ := guard_eq_ok.mp h
    obtain ⟨⟨code, slice⟩, hcode, h⟩ := bind_eq_ok.mp h
    obtain ⟨hclt, rfl⟩ := readNat_iff.mp hcode
    obtain ⟨message, hlt, rfl, rfl⟩ := (exactText_iff (NackPayload.mk code)).mp h
    exact ⟨hclt, hlt, rfl⟩
  · rintro ⟨hclt, hlt, rfl⟩
    have hshort : ¬ (beBytes 2 p.code ++ sized (utf8 p.message)).length < 4 := by
      simp only [List.length_append, beBytes_length, sized_length]
      omega
    rw [if_neg hshort]
    refine bind_eq_ok.mpr ⟨(p.code, sized (utf8 p.message)), readNat_iff.mpr ⟨hclt, rfl⟩, ?_⟩
    exact (exactText_iff (NackPayload.mk p.code)).mpr ⟨p.message, hlt, rfl, rfl⟩

theorem DeliverPayload.encode_iff {p : DeliverPayload} :
    p.encode = .ok b ↔ (utf8 p.topic).length < 2 ^ 16 ∧
      p.qos :: (beBytes 8 p.deliveryTag ++ (sized (utf8 p.topic) ++ p.message)) = b := by
  rw [sized, List.append_assoc]
  exact ite_eq_ok_iff

/-- The reads of a DELIVER payload, one after the other. -/
theorem DeliverPayload.decode_cons (qos : UInt8) (rest : Bytes) :
    decode (qos :: rest) =
      readNat (invalidPayload (qos :: rest)) 8 rest >>= fun x =>
        readSized (invalidPayload (qos :: rest)) x.2 >>= fun y =>
          text (invalidPayload (qos :: rest)) y.1 >>= fun topic => pure ⟨qos, x.1, topic, y.2⟩ := by
  unfold decode readSized
  rw [List.length_cons]
  by_cases htag : rest.length < 8
  · rw [readNat, if_pos htag, if_pos (by omega)]
    rfl
  rw [readNat, if_neg htag]
  show _ = (readNat _ 2 (rest.drop 8) >>= _) >>= _
  by_cases hsize : rest.length < 8 + 2
  · rw [readNat, List.length_drop, if_pos (by omega), if_pos (by omega)]
    rfl
  · rw [readNat, List.length_drop, if_neg (by omega), if_neg (by omega), List.drop_drop]
    rfl

theorem DeliverPayload.decode_iff {p : DeliverPayload} :
    decode b = .ok p ↔ p.deliveryTag < 2 ^ 64 ∧ p.encode = .ok b := by
  rw [encode_iff]
  cases b with
  | nil => exact iff_of_false (by rintro ⟨⟩) (by rintro ⟨-, -, ⟨⟩⟩)
  | cons qos rest =>
    rw [decode_cons]
    constructor
    · intro h
      obtain ⟨⟨tag, _⟩, htag, h⟩ := bind_eq_ok.mp h
      obtain ⟨⟨_, message⟩, hsized, h⟩ := bind_eq_ok.mp h
      obtain ⟨topic, htext, h⟩ := bind_eq_ok.mp h
      cases h
      obtain ⟨hlt, rfl⟩ := readNat_iff.mp htag
      obtain ⟨hlen, rfl⟩ := readSized_iff.mp hsized
      obtain rfl := text_eq_ok.mp htext
      exact ⟨hlt, hlen, rfl⟩
    · rintro ⟨htag, hlt, hb⟩
      cases hb
      refine bind_eq_ok.mpr ⟨(p.deliveryTag, _), readNat_iff.mpr ⟨htag, rfl⟩, ?_⟩
      refine bind_eq_ok.mpr ⟨(utf8 p.topic, p.message), readSized_iff.mpr ⟨hlt, rfl⟩, ?_⟩
      exact bind_eq_ok.mpr ⟨p.topic, text_eq_ok.mpr rfl, rfl⟩

/-! ## PUBLISH -/

namespace PublishPayload

/-- The fields behind the flag byte `q`. -/
def bytes (p : PublishPayload) (q : UInt8) : Bytes :=
  q :: (p.ttlMs.elim [] (beBytes 4) ++ (p.partitionKey.elim [] sized ++
    (sized p.topic ++ p.message)))

/-- The flag byte says which fields `p` has. -/
structure Announces (q : UInt8) (p : PublishPayload) : Prop where
  qos : q &&& qosMask = p.qos
  ttlMs : q &&& flagHasTtl ≠ 0 ↔ p.ttlMs.isSome = true
  partitionKey : q &&& flagHasKey ≠ 0 ↔ p.partitionKey.isSome = true

/-- The lengths of the fields are numbers of two bytes. -/
@[mk_iff] structure Fits (p : PublishPayload) : Prop where
  topic : p.topic.length < 2 ^ 16
  partitionKey : ∀ key, p.partitionKey = some key → key.length < 2 ^ 16

/-- A TTL is a `u32`, a topic is text. -/
structure Valid (p : PublishPayload) : Prop where
  ttlMs : ∀ ttl, p.ttlMs = some ttl → ttl < 2 ^ 32
  topic : ∃ name, p.topic = utf8 name

theorem qosByte_eq (p : PublishPayload) :
    p.qosByte = flagByte p.qos p.ttlMs.isSome p.partitionKey.isSome := rfl

variable {p : PublishPayload}

theorem announces_qosByte (h : p.qos ≤ 3) : Announces p.qosByte p := by
  have hflags := flagByte_flags p.qos p.ttlMs.isSome p.partitionKey.isSome
  rw [qosByte_eq]
  exact ⟨(flagByte_qos ..).trans ((qos_le_iff p.qos).mp h), hflags.1, hflags.2⟩

variable {q : UInt8}

/-- Of the bytes that announce `p`, the encoder writes the one without undefined
bits. -/
theorem Announces.eq_qosByte_iff (h : Announces q p) : q = p.qosByte ↔ q &&& undefinedBits = 0 :=
  eq_flagByte_iff h.qos h.ttlMs h.partitionKey

theorem encode_iff {b : Bytes} : p.encode = .ok b ↔ p.Fits ∧ p.bytes p.qosByte = b := by
  obtain ⟨topic, qos, message, ttlMs, partitionKey⟩ := p
  rw [fits_iff, bytes, sized, List.append_assoc, and_assoc]
  unfold encode
  dsimp only
  refine guard_eq_ok.trans (and_congr Nat.not_le ?_)
  cases partitionKey with
  | none => exact ok_iff_of fun _ h => absurd h.symm (Option.some_ne_none _)
  | some key =>
    refine ite_eq_ok_iff.trans (and_congr_left fun _ => ?_)
    simp only [Option.some.injEq, forall_eq']

variable {invalid : FrameDecodeError} {slice rest : Bytes}

theorem decodeTtl_iff {ttl : Option Nat} :
    decodeTtl invalid q slice = .ok (ttl, rest) ↔
      (q &&& flagHasTtl ≠ 0 ↔ ttl.isSome = true) ∧ (∀ v, ttl = some v → v < 2 ^ 32) ∧
        slice = ttl.elim [] (beBytes 4) ++ rest :=
  readOptional_iff fun _ _ _ => readNat_iff

theorem decodeKey_iff {key : Option Bytes} :
    decodeKey invalid q slice = .ok (key, rest) ↔
      (q &&& flagHasKey ≠ 0 ↔ key.isSome = true) ∧ (∀ v, key = some v → v.length < 2 ^ 16) ∧
        slice = key.elim [] sized ++ rest := by
  have hread : decodeKey invalid q slice =
      if q &&& flagHasKey ≠ 0 then readSized invalid slice >>= fun x => pure (some x.1, x.2)
      else .ok (none, slice) := by
    unfold decodeKey readSized
    rw [bind_assoc]
  rw [hread]
  exact readOptional_iff fun _ _ _ => readSized_iff

/-- What a PUBLISH payload is decoded to: it consists of a byte that announces the
fields and of the fields. -/
theorem decode_iff {b : Bytes} :
    decode b = .ok p ↔ p.Valid ∧ p.Fits ∧ ∃ q, Announces q p ∧ b = p.bytes q := by
  unfold decode
  dsimp only
  constructor
  · intro h
    obtain ⟨hshort, h⟩ := guard_eq_ok.mp h
    obtain ⟨⟨ttl, s₁⟩, httl, h⟩ := bind_eq_ok.mp h
    obtain ⟨⟨key, s₂⟩, hkey, h⟩ := bind_eq_ok.mp h
    obtain ⟨⟨topicLen, s₃⟩, hlen, h⟩ := bind_eq_ok.mp h
    obtain ⟨⟨topic, message⟩, htopic, h⟩ := bind_eq_ok.mp h
    obtain ⟨name, htext, h⟩ := bind_eq_ok.mp h
    cases h
    obtain ⟨hflag, hlt, hs₁⟩ := decodeTtl_iff.mp httl
    obtain ⟨hflag', hlt', rfl⟩ := decodeKey_iff.mp hkey
    obtain ⟨hlt'', rfl⟩ := readNat_iff.mp hlen
    obtain ⟨hexact, rfl⟩ := readBytes_iff.mp htopic
    cases b with
    | nil => exact absurd (Nat.zero_lt_succ _) hshort
    | cons q b =>
      refine ⟨⟨hlt, name, text_eq_ok.mp htext⟩, ⟨by rw [hexact]; exact hlt'', hlt'⟩, q,
        ⟨rfl, hflag, hflag'⟩, ?_⟩
      have hs₁ : b = _ := hs₁
      rw [hs₁, bytes, sized, hexact, List.append_assoc]
  · rintro ⟨⟨hlt, name, hname⟩, ⟨hlt', hlt''⟩, q, ⟨hqos, hflag, hflag'⟩, rfl⟩
    have hshort : ¬ (p.bytes q).length < 3 := by
      simp only [bytes, List.length_cons, List.length_append, sized_length]
      omega
    rw [if_neg hshort]
    refine bind_eq_ok.mpr ⟨(p.ttlMs, _), decodeTtl_iff.mpr ⟨hflag, hlt, rfl⟩, ?_⟩
    refine bind_eq_ok.mpr ⟨(p.partitionKey, _), decodeKey_iff.mpr ⟨hflag', hlt'', rfl⟩, ?_⟩
    have hlen : readNat (invalidPayload (p.bytes q)) 2 (sized p.topic ++ p.message) =
        .ok (p.topic.length, p.topic ++ p.message) :=
      readNat_iff.mpr ⟨hlt', by rw [sized, List.append_assoc]⟩
    refine bind_eq_ok.mpr ⟨_, hlen, ?_⟩
    refine bind_eq_ok.mpr ⟨(p.topic, p.message), readBytes_iff.mpr ⟨rfl, rfl⟩, ?_⟩
    refine bind_eq_ok.mpr ⟨name, text_eq_ok.mpr hname, ?_⟩
    show Except.ok (PublishPayload.mk p.topic (q &&& qosMask) p.message p.ttlMs p.partitionKey) = _
    rw [hqos]

end PublishPayload

/-! ## SUBSCRIBE -/

namespace SubscribePayload

/-- The topic, the flag byte `q` and the fields it announces. -/
def bytes (p : SubscribePayload) (q : UInt8) : Bytes :=
  sized (utf8 p.topic) ++ (q :: (p.group.elim [] (fun group => sized (utf8 group)) ++
    p.fromOffset.elim [] (beBytes 8)))

/-- The flag byte says which fields `p` has. -/
structure Announces (q : UInt8) (p : SubscribePayload) : Prop where
  qos : q &&& qosMask = p.qos
  group : q &&& flagHasGroup ≠ 0 ↔ p.group.isSome = true
  fromOffset : q &&& flagHasOffset ≠ 0 ↔ p.fromOffset.isSome = true

/-- The lengths of the names are numbers of two bytes. -/
@[mk_iff] structure Fits (p : SubscribePayload) : Prop where
  topic : (utf8 p.topic).length < 2 ^ 16
  group : ∀ group, p.group = some group → (utf8 group).length < 2 ^ 16

/-- An offset is a `u64`. -/
def Valid (p : SubscribePayload) : Prop := ∀ offset, p.fromOffset = some offset → offset < 2 ^ 64

theorem qosByte_eq (p : SubscribePayload) :
    p.qosByte = flagByte p.qos p.group.isSome p.fromOffset.isSome := rfl

variable {p : SubscribePayload}

theorem announces_qosByte (h : p.qos ≤ 3) : Announces p.qosByte p := by
  have hflags := flagByte_flags p.qos p.group.isSome p.fromOffset.isSome
  rw [qosByte_eq]
  exact ⟨(flagByte_qos ..).trans ((qos_le_iff p.qos).mp h), hflags.1, hflags.2⟩

variable {q : UInt8}

theorem Announces.eq_qosByte_iff (h : Announces q p) : q = p.qosByte ↔ q &&& undefinedBits = 0 :=
  eq_flagByte_iff h.qos h.group h.fromOffset

theorem encode_iff {b : Bytes} : p.encode = .ok b ↔ p.Fits ∧ p.bytes p.qosByte = b := by
  obtain ⟨topic, qos, group, fromOffset⟩ := p
  rw [fits_iff, bytes, sized, List.append_assoc, and_assoc]
  unfold encode
  dsimp only
  refine guard_eq_ok.trans (and_congr Nat.not_le ?_)
  cases group with
  | none => exact ok_iff_of fun _ h => absurd h.symm (Option.some_ne_none _)
  | some group =>
    refine ite_eq_ok_iff.trans (and_congr_left fun _ => ?_)
    simp only [Option.some.injEq, forall_eq']

variable {invalid : FrameDecodeError} {slice rest : Bytes}

theorem decodeGroup_eq : decodeGroup invalid slice =
    readSized invalid slice >>= fun x => text invalid x.1 >>= fun group => pure (group, x.2) := by
  unfold decodeGroup readSized readNat
  split
  · rfl
  · show _ = (readBytes invalid _ _ >>= _)
    unfold readBytes
    dsimp only
    split <;> rfl

theorem decodeGroup_iff {group : String} :
    decodeGroup invalid slice = .ok (group, rest) ↔
      (utf8 group).length < 2 ^ 16 ∧ slice = sized (utf8 group) ++ rest := by
  rw [decodeGroup_eq, bind_eq_ok]
  constructor
  · rintro ⟨⟨field, rest'⟩, hfield, h⟩
    obtain ⟨group', htext, h⟩ := bind_eq_ok.mp h
    cases h
    obtain rfl := text_eq_ok.mp htext
    exact readSized_iff.mp hfield
  · intro h
    exact ⟨(utf8 group, rest), readSized_iff.mpr h, bind_eq_ok.mpr ⟨group, text_eq_ok.mpr rfl, rfl⟩⟩

/-- The group, where the flag byte announces one. -/
def readGroup (invalid : FrameDecodeError) (q : UInt8) (slice : Bytes) :
    Except FrameDecodeError (Option String × Bytes) :=
  if q &&& flagHasGroup ≠ 0 then decodeGroup invalid slice >>= fun x => pure (some x.1, x.2)
  else .ok (none, slice)

/-- The offset, where the flag byte announces one. -/
def readOffset (invalid : FrameDecodeError) (q : UInt8) (slice : Bytes) :
    Except FrameDecodeError (Option Nat) :=
  if q &&& flagHasOffset ≠ 0 then
    if slice.length < 8 then .error invalid else .ok (some (beNat (slice.take 8)))
  else .ok none

/-- The topic, and the flag byte and the fields behind it. -/
theorem decode_eq (b : Bytes) : decode b =
    if b.length < 3 then .error (invalidPayload b)
    else if (b.drop 2).length < beNat (b.take 2) + 1 then .error (invalidPayload b)
    else
      let q := ((b.drop 2).drop (beNat (b.take 2))).headD 0
      text (invalidPayload b) ((b.drop 2).take (beNat (b.take 2))) >>= fun topic =>
        readGroup (invalidPayload b) q ((b.drop 2).drop (beNat (b.take 2) + 1)) >>= fun x =>
          readOffset (invalidPayload b) q x.2 >>= fun offset =>
            .ok ⟨topic, q &&& qosMask, x.1, offset⟩ := by
  unfold decode
  dsimp only
  split
  · rfl
  split
  · rfl
  refine congrArg (text _ _ >>= ·) (funext fun topic => ?_)
  generalize ((b.drop 2).drop (beNat (b.take 2))).headD 0 = q
  -- the reads of the offset, from whatever is left behind the group
  have hoffset : ∀ x : Option String × Bytes,
      (if q &&& flagHasOffset ≠ 0 then
        if x.2.length < 8 then (.error (invalidPayload b) : Except _ _) >>= fun offset =>
          pure ⟨topic, q &&& qosMask, x.1, offset⟩
        else pure (some (beNat (x.2.take 8))) >>= fun offset =>
          pure ⟨topic, q &&& qosMask, x.1, offset⟩
      else pure none >>= fun offset => pure ⟨topic, q &&& qosMask, x.1, offset⟩) =
      readOffset (invalidPayload b) q x.2 >>= fun offset =>
        .ok (SubscribePayload.mk topic (q &&& qosMask) x.1 offset) := by
    intro x
    unfold readOffset
    split_ifs <;> rfl
  unfold readGroup
  split
  · rw [bind_assoc]
    exact congrArg (decodeGroup _ _ >>= ·) (funext fun x => hoffset (some x.1, x.2))
  · exact hoffset (none, _)

/-- The offset is the last field; what stands behind it is not looked at. -/
theorem readOffset_iff {offset : Option Nat} :
    readOffset invalid q slice = .ok offset ↔
      (q &&& flagHasOffset ≠ 0 ↔ offset.isSome = true) ∧ (∀ v, offset = some v → v < 2 ^ 64) ∧
        ∃ trailing, slice = offset.elim [] (beBytes 8) ++ trailing := by
  have hread : readOffset invalid q slice =
      (if q &&& flagHasOffset ≠ 0 then readNat invalid 8 slice >>= fun x => pure (some x.1, x.2)
      else .ok (none, slice)).map Prod.fst := by
    unfold readOffset readNat
    split_ifs <;> rfl
  rw [hread, map_eq_ok]
  constructor
  · rintro ⟨⟨_, trailing⟩, h, rfl⟩
    obtain ⟨hflag, hlt, hslice⟩ := (readOptional_iff fun _ _ _ => readNat_iff).mp h
    exact ⟨hflag, hlt, trailing, hslice⟩
  · rintro ⟨hflag, hlt, trailing, hslice⟩
    exact ⟨(offset, trailing),
      (readOptional_iff fun _ _ _ => readNat_iff).mpr ⟨hflag, hlt, hslice⟩, rfl⟩

theorem readGroup_iff {group : Option String} :
    readGroup invalid q slice = .ok (group, rest) ↔
      (q &&& flagHasGroup ≠ 0 ↔ group.isSome = true) ∧
        (∀ v, group = some v → (utf8 v).length < 2 ^ 16) ∧
          slice = group.elim [] (fun v => sized (utf8 v)) ++ rest :=
  readOptional_iff fun _ _ _ => decodeGroup_iff

/-- What a SUBSCRIBE payload is decoded to: it begins with the topic, a byte that
announces the other fields, and these fields. -/
theorem decode_iff {b : Bytes} :
    decode b = .ok p ↔
      p.Valid ∧ p.Fits ∧ ∃ q trailing, Announces q p ∧ b = p.bytes q ++ trailing := by
  rw [decode_eq]
  dsimp only
  constructor
  · intro h
    obtain ⟨hshort, h⟩ := guard_eq_ok.mp h
    obtain ⟨hshort', h⟩ := guard_eq_ok.mp h
    obtain ⟨topic, htext, h⟩ := bind_eq_ok.mp h
    obtain ⟨⟨group, slice⟩, hgroup, h⟩ := bind_eq_ok.mp h
    obtain ⟨offset, hoffset, h⟩ := bind_eq_ok.mp h
    cases h
    obtain ⟨hflag, hglt, hslice⟩ := readGroup_iff.mp hgroup
    obtain ⟨hflag', holt, trailing, rfl⟩ := readOffset_iff.mp hoffset
    have htwo : 2 ≤ b.length := by omega
    obtain ⟨htlt, hb⟩ := split_number 2 htwo
    have hbehind := drop_eq_headD_cons (Nat.lt_of_not_le fun hle => hshort' (Nat.lt_succ_of_le hle))
    have htopicLen : (utf8 topic).length = beNat (b.take 2) := by
      rw [← text_eq_ok.mp htext, List.length_take_of_le (by omega)]
    generalize ((b.drop 2).drop (beNat (b.take 2))).headD 0 = q at hbehind hflag hflag' ⊢
    refine ⟨holt, ⟨by rw [htopicLen]; exact htlt, hglt⟩, q, trailing, ⟨rfl, hflag, hflag'⟩, ?_⟩
    calc b = beBytes 2 (beNat (b.take 2)) ++ ((b.drop 2).take (beNat (b.take 2)) ++
          (b.drop 2).drop (beNat (b.take 2))) := by rw [List.take_append_drop, ← hb]
      _ = _ := by
        rw [hbehind, hslice, text_eq_ok.mp htext, ← htopicLen]
        simp only [bytes, sized, List.append_assoc, List.cons_append]
  · rintro ⟨hvalid, hfits, q, trailing, hq, rfl⟩
    obtain ⟨topic, qos, group, fromOffset⟩ := p
    have hlt : (utf8 topic).length < 256 ^ 2 := hfits.topic
    let rest := group.elim [] (fun v => sized (utf8 v)) ++
      (fromOffset.elim [] (beBytes 8) ++ trailing)
    have hbytes : bytes ⟨topic, qos, group, fromOffset⟩ q ++ trailing =
        beBytes 2 (utf8 topic).length ++ (utf8 topic ++ (q :: rest)) := by
      simp only [bytes, sized, rest, List.append_assoc, List.cons_append]
    have hshort : ¬ (beBytes 2 (utf8 topic).length ++ (utf8 topic ++ (q :: rest))).length < 3 := by
      simp only [List.length_append, beBytes_length, List.length_cons]
      omega
    have hshort' : ¬ (utf8 topic ++ (q :: rest)).length < (utf8 topic).length + 1 := by
      simp only [List.length_append, List.length_cons]
      omega
    rw [hbytes, if_neg hshort, List.take_left' (beBytes_length ..),
      List.drop_left' (beBytes_length ..), beNat_beBytes hlt, if_neg hshort', List.take_left,
      List.drop_left, ← List.drop_drop, List.drop_left]
    refine bind_eq_ok.mpr ⟨topic, text_eq_ok.mpr rfl, ?_⟩
    refine bind_eq_ok.mpr ⟨(group, fromOffset.elim [] (beBytes 8) ++ trailing),
      readGroup_iff.mpr ⟨hq.group, hfits.group, rfl⟩, ?_⟩
    refine bind_eq_ok.mpr ⟨fromOffset,
      readOffset_iff.mpr ⟨hq.fromOffset, hvalid, trailing, rfl⟩, ?_⟩
    show Except.ok (SubscribePayload.mk topic (q &&& qosMask) group fromOffset) = _
    rw [hq.qos]

end SubscribePayload

/-! ## Round trips -/

/-- What is encoded is decoded to itself, and only a field that does not fit stops
the encoder. -/
structure RoundTrips {α : Type} (encode : α → Except FrameEncodeError Bytes)
    (decode : Bytes → Except FrameDecodeError α) (valid fits : α → Prop) : Prop where
  decode_encode : ∀ p, valid p → fits p → ∃ b, encode p = .ok b ∧ decode b = .ok p
  encode_error : ∀ p, (∃ e, encode p = .error e) ↔ ¬ fits p

theorem RoundTrips.intro {encode : α → Except FrameEncodeError Bytes}
    {decode : Bytes → Except FrameDecodeError α} {valid fits : α → Prop} (bytes : α → Bytes)
    (hencode : ∀ p b, encode p = .ok b ↔ fits p ∧ bytes p = b)
    (hdecode : ∀ p, valid p → fits p → decode (bytes p) = .ok p) :
    RoundTrips encode decode valid fits where
  decode_encode p hvalid hfits :=
    ⟨bytes p, (hencode _ _).mpr ⟨hfits, rfl⟩, hdecode p hvalid hfits⟩
  encode_error p := by
    cases h : encode p with
    | ok b => exact iff_of_false nofun (not_not_intro ((hencode p b).mp h).1)
    | error e =>
      refine iff_of_true ⟨e, rfl⟩ fun hfits => ?_
      have hok := (hencode p _).mpr ⟨hfits, rfl⟩
      rw [h] at hok
      cases hok

/-- **The payload codecs round-trip**: every value whose fields have the ranges of
their types and fit behind their lengths is read back from its encoding. -/
theorem payload_codecs_roundTrip :
    RoundTrips (fun p : HelloPayload => .ok p.encode) HelloPayload.decode
      (fun p => p.protocolVersion < 2 ^ 16) (fun _ => True) ∧
    RoundTrips AuthPayload.encode AuthPayload.decode
      (fun _ => True) (fun p => (utf8 p.apiKey).length < 2 ^ 16) ∧
    RoundTrips AckPayload.encode AckPayload.decode
      (fun p => p.subscriptionId < 2 ^ 64) (fun _ => True) ∧
    RoundTrips NackPayload.encode NackPayload.decode
      (fun p => p.code < 2 ^ 16) (fun p => (utf8 p.message).length < 2 ^ 16) ∧
    RoundTrips PollPayload.encode PollPayload.decode
      (fun p => p.subscriptionId < 2 ^ 64) (fun _ => True) ∧
    RoundTrips DeliverPayload.encode DeliverPayload.decode
      (fun p => p.deliveryTag < 2 ^ 64) (fun p => (utf8 p.topic).length < 2 ^ 16) ∧
    RoundTrips PublishPayload.encode PublishPayload.decode
      (fun p => p.qos ≤ 3 ∧ p.Valid) PublishPayload.Fits ∧
    RoundTrips SubscribePayload.encode SubscribePayload.decode
      (fun p => p.qos ≤ 3 ∧ p.Valid) SubscribePayload.Fits := by
  refine ⟨?_, ?_, ?_, ?_, ?_, ?_, ?_, ?_⟩
  · exact .intro HelloPayload.encode (fun p b => by simp)
      fun p hvalid _ => HelloPayload.decode_iff.mpr ⟨hvalid, rfl⟩
  · exact .intro _ (fun p b => AuthPayload.encode_iff)
      fun p _ hfits => AuthPayload.decode_iff.mpr (AuthPayload.encode_iff.mpr ⟨hfits, rfl⟩)
  · exact .intro (fun p => beBytes 8 p.subscriptionId) (fun p b => by simp [AckPayload.encode])
      fun p hvalid _ => AckPayload.decode_iff.mpr ⟨hvalid, rfl⟩
  · exact .intro _ (fun p b => NackPayload.encode_iff) fun p hvalid hfits =>
      NackPayload.decode_iff.mpr ⟨hvalid, NackPayload.encode_iff.mpr ⟨hfits, rfl⟩⟩
  · exact .intro (fun p => beBytes 8 p.subscriptionId) (fun p b => by simp [PollPayload.encode])
      fun p hvalid _ => PollPayload.decode_iff.mpr ⟨hvalid, rfl⟩
  · exact .intro _ (fun p b => DeliverPayload.encode_iff) fun p hvalid hfits =>
      DeliverPayload.decode_iff.mpr ⟨hvalid, DeliverPayload.encode_iff.mpr ⟨hfits, rfl⟩⟩
  · exact .intro _ (fun p b => PublishPayload.encode_iff) fun p hvalid hfits =>
      PublishPayload.decode_iff.mpr ⟨hvalid.2, hfits, p.qosByte,
        PublishPayload.announces_qosByte hvalid.1, rfl⟩
  · refine .intro _ (fun p b => SubscribePayload.encode_iff) fun p hvalid hfits => ?_
    exact SubscribePayload.decode_iff.mpr ⟨hvalid.2, hfits, p.qosByte, [],
      SubscribePayload.announces_qosByte hvalid.1, (List.append_nil _).symm⟩

/-! ## Canonical encodings -/

theorem PublishPayload.encode_decode_iff {p : PublishPayload} (h : decode b = .ok p) :
    p.encode = .ok b ↔ b.headD 0 &&& undefinedBits = 0 := by
  obtain ⟨-, hfits, q, hq, rfl⟩ := decode_iff.mp h
  rw [encode_iff, and_iff_right hfits]
  show p.bytes p.qosByte = p.bytes q ↔ q &&& undefinedBits = 0
  rw [← hq.eq_qosByte_iff]
  constructor
  · intro heq
    exact (List.cons.inj heq).1.symm
  · intro heq
    rw [heq]

namespace SubscribePayload

/-- The flag byte stands behind the topic. -/
def flagsOf (b : Bytes) : UInt8 := (b.drop (2 + beNat (b.take 2))).headD 0

/-- What stands behind the fields of `p`. -/
def trailingOf (p : SubscribePayload) (b : Bytes) : Bytes := b.drop (p.bytes 0).length

theorem length_bytes (p : SubscribePayload) (q q' : UInt8) :
    (p.bytes q).length = (p.bytes q').length := by
  simp [bytes]

theorem trailingOf_bytes (p : SubscribePayload) (q : UInt8) (trailing : Bytes) :
    p.trailingOf (p.bytes q ++ trailing) = trailing :=
  List.drop_left' (p.length_bytes q 0)

theorem flagsOf_bytes {p : SubscribePayload} (h : p.Fits) (q : UInt8) (trailing : Bytes) :
    flagsOf (p.bytes q ++ trailing) = q := by
  have hlt : (utf8 p.topic).length < 256 ^ 2 := h.topic
  unfold flagsOf bytes sized
  rw [List.append_assoc, List.append_assoc,
    List.take_left' (beBytes_length ..), beNat_beBytes hlt, ← List.drop_drop,
    List.drop_left' (beBytes_length ..), List.drop_left]
  rfl

theorem bytes_injective (p : SubscribePayload) {q q' : UInt8} (h : p.bytes q = p.bytes q') :
    q = q' :=
  (List.cons.inj (List.append_cancel_left h)).1

theorem encode_decode_iff {b : Bytes} {p : SubscribePayload} (h : decode b = .ok p) :
    p.encode = .ok b ↔ flagsOf b &&& undefinedBits = 0 ∧ p.trailingOf b = [] := by
  obtain ⟨-, hfits, q, trailing, hq, rfl⟩ := decode_iff.mp h
  rw [encode_iff, and_iff_right hfits, flagsOf_bytes hfits, trailingOf_bytes, ← hq.eq_qosByte_iff]
  constructor
  · intro heq
    obtain ⟨hbytes, hnil⟩ := List.append_inj ((List.append_nil _).trans heq)
      (p.length_bytes p.qosByte q)
    exact ⟨(p.bytes_injective hbytes).symm, hnil.symm⟩
  · rintro ⟨rfl, rfl⟩
    rw [List.append_nil]

end SubscribePayload

/-- **When a payload is the encoding of what it is decoded to**: always for six of
the eight types; a PUBLISH or SUBSCRIBE just if its flag byte has no undefined
bits, and a SUBSCRIBE only if nothing stands behind its fields. -/
theorem payload_decoding_canonical_iff (b : Bytes) :
    (∀ p, HelloPayload.decode b = .ok p → p.encode = b) ∧
    (∀ p, AuthPayload.decode b = .ok p → p.encode = .ok b) ∧
    (∀ p, AckPayload.decode b = .ok p → p.encode = .ok b) ∧
    (∀ p, NackPayload.decode b = .ok p → p.encode = .ok b) ∧
    (∀ p, PollPayload.decode b = .ok p → p.encode = .ok b) ∧
    (∀ p, DeliverPayload.decode b = .ok p → p.encode = .ok b) ∧
    (∀ p, PublishPayload.decode b = .ok p →
      (p.encode = .ok b ↔ b.headD 0 &&& undefinedBits = 0)) ∧
    (∀ p, SubscribePayload.decode b = .ok p →
      (p.encode = .ok b ↔
        SubscribePayload.flagsOf b &&& undefinedBits = 0 ∧ p.trailingOf b = [])) := by
  refine ⟨?_, ?_, ?_, ?_, ?_, ?_, ?_, ?_⟩
  · exact fun p h => (HelloPayload.decode_iff.mp h).2
  · exact fun p h => AuthPayload.decode_iff.mp h
  · exact fun p h => (AckPayload.decode_iff.mp h).2
  · exact fun p h => (NackPayload.decode_iff.mp h).2
  · exact fun p h => (PollPayload.decode_iff.mp h).2
  · exact fun p h => (DeliverPayload.decode_iff.mp h).2
  · exact fun p h => PublishPayload.encode_decode_iff h
  · exact fun p h => SubscribePayload.encode_decode_iff h

/-- A SUBSCRIBE with an undefined flag bit or with a trailing byte is taken for the
one without, and a PUBLISH likewise. -/
theorem payloads_share_a_request :
    SubscribePayload.decode [0, 1, 97, 0] = .ok ⟨"a", 0, none, none⟩ ∧
      SubscribePayload.decode [0, 1, 97, 4] = .ok ⟨"a", 0, none, none⟩ ∧
      SubscribePayload.decode [0, 1, 97, 0, 7] = .ok ⟨"a", 0, none, none⟩ ∧
      PublishPayload.decode [1, 0, 1, 97, 9] = .ok ⟨[97], 1, [9], none, none⟩ ∧
      PublishPayload.decode [33, 0, 1, 97, 9] = .ok ⟨[97], 1, [9], none, none⟩ := by
  decide +kernel

end BlipMQ.Net
