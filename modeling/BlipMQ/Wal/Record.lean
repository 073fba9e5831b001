import BlipMQ.Lib.Bytes

/-!
# WAL — record framing

A segment file is a 32-byte header followed by records
`[id u64][len u32][crc u32][payload]`, all integers little-endian. This
module embeds the reader and the writer of that framing and the walk over
a segment that `open_with_config` and `iterate_from` share.

`crc` stands for the checksum of the `crc32fast` crate. Its `Hasher` is
fed the first twelve header bytes and then the payload, which is the
checksum of their concatenation.
-/

namespace BlipMQ.Wal

def headerMagic : Bytes := [0x42, 0x4C, 0x49, 0x50, 0x57, 0x41, 0x4C, 0x00]
def headerVersion : Nat := 3
def headerLen : Nat := 32
def recordHeaderLen : Nat := 8 + 4 + 4

inductive WalError where
  | io (reason : String)
  | backpressure (reason : String)
  | writerStopped
  | invalidConfig (reason : String)
  | corruption (reason : String)
  deriving DecidableEq, Repr

def WalError.IsCorruption : WalError → Prop
  | .corruption _ => True
  | _ => False

instance instDecidableEqExcept {ε α : Type} [DecidableEq ε] [DecidableEq α] :
    DecidableEq (Except ε α)
  | .error a, .error b => decidable_of_iff (a = b) ⟨congrArg _, fun h => by cases h; rfl⟩
  | .ok a, .ok b => decidable_of_iff (a = b) ⟨congrArg _, fun h => by cases h; rfl⟩
  | .error _, .ok _ => isFalse nofun
  | .ok _, .error _ => isFalse nofun

structure WalRecord where
  id : Nat
  payload : Bytes
  deriving DecidableEq, Repr

/-- The record's id and length fit the header's `u64` and `u32`. -/
structure WalRecord.Fits (r : WalRecord) : Prop where
  id_lt : r.id < 2 ^ 64
  len_lt : r.payload.length < 2 ^ 32

instance (r : WalRecord) : Decidable r.Fits :=
  decidable_of_iff (r.id < 2 ^ 64 ∧ r.payload.length < 2 ^ 32)
    ⟨fun h => ⟨h.1, h.2⟩, fun h => ⟨h.id_lt, h.len_lt⟩⟩

/-- Bytes the record takes in its segment. -/
def WalRecord.size (r : WalRecord) : Nat := recordHeaderLen + r.payload.length

def sizeAll (rs : List WalRecord) : Nat := (rs.map WalRecord.size).sum

/-- Each record with the offset it starts at, the first one at `offset`. -/
def located : Nat → List WalRecord → List (WalRecord × Nat)
  | _, [] => []
  | offset, r :: rs => (r, offset) :: located (offset + r.size) rs

/-! ## The segment header -/

/-- The bytes `write_header` puts at the start of a segment. -/
def segmentHeader : Bytes := headerMagic ++ leBytes 4 headerVersion ++ List.replicate 20 0

def validateHeader (file : Bytes) : Except WalError Unit :=
  let buf := file.take headerLen
  if buf.length < headerLen then
    .error (.corruption "unexpected EOF while reading WAL header")
  else if buf.take 8 ≠ headerMagic then .error (.corruption "invalid WAL magic")
  else
    let version := leNat ((buf.drop 8).take 4)
    if version ≠ headerVersion then
      .error (.corruption s!"unsupported WAL version: {version}")
    else .ok ()

@[simp] theorem segmentHeader_length : segmentHeader.length = headerLen := by decide

theorem validateHeader_header (rest : Bytes) :
    validateHeader (segmentHeader ++ rest) = .ok () := by
  have htake : (segmentHeader ++ rest).take headerLen = segmentHeader := by
    rw [← segmentHeader_length]; simp
  unfold validateHeader
  rw [htake]
  decide

theorem validateHeader_ok_length {file : Bytes} (h : validateHeader file = .ok ()) :
    headerLen ≤ file.length := by
  by_contra hlt
  have hshort : (file.take headerLen).length < headerLen := by
    rw [List.length_take]; omega
  unfold validateHeader at h
  dsimp only at h
  rw [if_pos hshort] at h
  cases h

theorem validateHeader_error {file : Bytes} {e : WalError}
    (h : validateHeader file = .error e) : e.IsCorruption := by
  unfold validateHeader at h
  dsimp only at h
  split at h
  · cases h; trivial
  · split at h
    · cases h; trivial
    · split at h <;> cases h
      trivial

/-! ## Writing a record -/

section Framing

variable (crc : Bytes → UInt32)

/-- The sixteen header bytes `build_request` prepares: the checksum covers
the id, the length and the payload. -/
def recordHeader (id : Nat) (data : Bytes) : Bytes :=
  let head := leBytes 8 id ++ leBytes 4 data.length
  head ++ leBytes 4 (crc (head ++ data)).toNat

def encodeRecord (r : WalRecord) : Bytes := recordHeader crc r.id r.payload ++ r.payload

def encodeRecords (rs : List WalRecord) : Bytes := (rs.map (encodeRecord crc)).flatten

/-! ## Reading a record -/

/-- Eight lower-case hexadecimal digits, as `{:08x}` prints a `u32`. -/
def hex08 (n : Nat) : String :=
  String.ofList ((List.range 8).map fun i => Nat.digitChar (n / 16 ^ (7 - i) % 16))

/-- One record from the file cursor on. `file` holds the bytes from the
cursor to the end of the file; a caller that gets `some (_, _, _, n)`
continues `n` bytes further. End of file inside the header or inside the
payload reads as "no more records". -/
def readNextRecordWithOffset (file : Bytes) (currentOffset : Nat) :
    Except WalError (Option (Nat × Bytes × Nat × Nat)) :=
  let header := file.take recordHeaderLen
  if header.length < recordHeaderLen then .ok none
  else
    let id := leNat (header.take 8)
    let len := leNat ((header.drop 8).take 4)
    let expectedCrc := leNat (header.drop 12)
    let payload := (file.drop recordHeaderLen).take len
    if payload.length < len then .ok none
    else
      let actualCrc := (crc (header.take 12 ++ payload)).toNat
      if actualCrc ≠ expectedCrc then
        .error (.corruption ("CRC mismatch at offset " ++ toString currentOffset ++
          ": expected " ++ hex08 expectedCrc ++ ", got " ++ hex08 actualCrc))
      else .ok (some (id, payload, currentOffset, recordHeaderLen + len))

/-- The record loop of `rebuild_segment_index` and of `iterate_from`: read
until there is no more record. Every record takes at least sixteen bytes,
so a fuel of the file's length is never what ends the loop. -/
def walkRecords : Nat → Bytes → Nat → Except WalError (List (WalRecord × Nat) × Nat)
  | 0, _, offset => .ok ([], offset)
  | fuel + 1, file, offset =>
    match readNextRecordWithOffset crc file offset with
    | .error e => .error e
    | .ok none => .ok ([], offset)
    | .ok (some (id, payload, recordOffset, totalLen)) =>
      (walkRecords fuel (file.drop totalLen) (offset + totalLen)).map
        fun out => ((⟨id, payload⟩, recordOffset) :: out.1, out.2)

/-- All records from the cursor on, with the offset the walk ends at. -/
def scanRecords (file : Bytes) (offset : Nat) :
    Except WalError (List (WalRecord × Nat) × Nat) :=
  walkRecords crc file.length file offset

/-- The ids and offsets of a segment's records, the id after its last
record, and the offset its last whole record ends at. -/
def rebuildSegmentIndex (file : Bytes) : Except WalError (List (Nat × Nat) × Nat × Nat) :=
  (scanRecords crc (file.drop headerLen) headerLen).map fun out =>
    (out.1.map fun p => (p.1.id, p.2),
      (match out.1.getLast? with
        | none => 1
        | some p => (p.1.id + 1) % 2 ^ 64),
      out.2)

/-- A strict prefix of a written record, the trace of a crash inside it. -/
def TornRecord (torn : Bytes) : Prop :=
  ∃ r : WalRecord, r.Fits ∧ torn <+: encodeRecord crc r ∧ torn.length < r.size

/-! ## Sizes -/

@[simp] theorem recordHeader_length (id : Nat) (data : Bytes) :
    (recordHeader crc id data).length = recordHeaderLen := by
  simp [recordHeader, recordHeaderLen]

@[simp] theorem encodeRecord_length (r : WalRecord) :
    (encodeRecord crc r).length = r.size := by
  simp [encodeRecord, WalRecord.size]

@[simp] theorem encodeRecords_nil : encodeRecords crc [] = [] := rfl

@[simp] theorem encodeRecords_cons (r : WalRecord) (rs : List WalRecord) :
    encodeRecords crc (r :: rs) = encodeRecord crc r ++ encodeRecords crc rs := rfl

@[simp] theorem encodeRecords_append (rs ts : List WalRecord) :
    encodeRecords crc (rs ++ ts) = encodeRecords crc rs ++ encodeRecords crc ts := by
  simp [encodeRecords]

@[simp] theorem sizeAll_nil : sizeAll [] = 0 := rfl

@[simp] theorem sizeAll_cons (r : WalRecord) (rs : List WalRecord) :
    sizeAll (r :: rs) = r.size + sizeAll rs := rfl

@[simp] theorem sizeAll_append (rs ts : List WalRecord) :
    sizeAll (rs ++ ts) = sizeAll rs + sizeAll ts := by
  simp [sizeAll]

@[simp] theorem encodeRecords_length (rs : List WalRecord) :
    (encodeRecords crc rs).length = sizeAll rs := by
  induction rs with
  | nil => rfl
  | cons r rs ih => simp [ih]

theorem WalRecord.le_size (r : WalRecord) : 16 ≤ r.size := by
  simp [WalRecord.size, recordHeaderLen]

/-! ## Located records -/

theorem located_append (offset : Nat) (rs ts : List WalRecord) :
    located offset (rs ++ ts) = located offset rs ++ located (offset + sizeAll rs) ts := by
  induction rs generalizing offset with
  | nil => simp [located]
  | cons r rs ih => simp [located, ih, Nat.add_assoc]

@[simp] theorem located_map_fst (offset : Nat) (rs : List WalRecord) :
    (located offset rs).map Prod.fst = rs := by
  induction rs generalizing offset with
  | nil => rfl
  | cons r rs ih => simp [located, ih]

variable {offset id : Nat} {file payload : Bytes} {r : WalRecord} {rs : List WalRecord}
  {e : WalError}

/-- A located record splits its list where it stands. -/
theorem mem_located {o : Nat} :
    (r, o) ∈ located offset rs ↔
      ∃ front back, rs = front ++ r :: back ∧ o = offset + sizeAll front := by
  induction rs generalizing offset with
  | nil => simp [located]
  | cons a rs ih =>
    simp only [located, List.mem_cons, Prod.mk.injEq]
    constructor
    · rintro (⟨rfl, rfl⟩ | h)
      · exact ⟨[], rs, rfl, by simp⟩
      · obtain ⟨front, back, rfl, rfl⟩ := ih.mp h
        exact ⟨a :: front, back, rfl, by simp [Nat.add_assoc]⟩
    · rintro ⟨front, back, heq, rfl⟩
      cases front with
      | nil =>
        simp only [List.nil_append, List.cons.injEq] at heq
        exact .inl ⟨heq.1.symm, by simp⟩
      | cons b front =>
        simp only [List.cons_append, List.cons.injEq] at heq
        obtain ⟨rfl, rfl⟩ := heq
        exact .inr (ih.mpr ⟨front, back, rfl, by simp [Nat.add_assoc]⟩)

/-! ## Reading back what was written -/

variable {crc}

/-- The reader on a file whose four header fields are given. -/
theorem readNext_frame {idB lenB crcB : Bytes} (hid : idB.length = 8) (hlen : lenB.length = 4)
    (hcrc : crcB.length = 4) (body : Bytes) (offset : Nat) :
    readNextRecordWithOffset crc (idB ++ (lenB ++ (crcB ++ body))) offset =
      if body.length < leNat lenB then .ok none
      else if (crc (idB ++ lenB ++ body.take (leNat lenB))).toNat ≠ leNat crcB then
        .error (.corruption ("CRC mismatch at offset " ++ toString offset ++
          ": expected " ++ hex08 (leNat crcB) ++ ", got " ++
          hex08 (crc (idB ++ lenB ++ body.take (leNat lenB))).toNat))
      else
        .ok (some (leNat idB, body.take (leNat lenB), offset, recordHeaderLen + leNat lenB)) := by
  have hheader : (idB ++ (lenB ++ (crcB ++ body))).take recordHeaderLen =
      idB ++ (lenB ++ crcB) := by
    simp [recordHeaderLen, List.take_append, hid, hlen, hcrc, List.take_of_length_le]
  have hbody : (idB ++ (lenB ++ (crcB ++ body))).drop recordHeaderLen = body := by
    simp [recordHeaderLen, List.drop_append, hid, hlen, hcrc, List.drop_of_length_le]
  have h8 : (idB ++ (lenB ++ crcB)).take 8 = idB := by
    rw [← hid, List.take_left]
  have h4 : ((idB ++ (lenB ++ crcB)).drop 8).take 4 = lenB := by
    rw [← hid, List.drop_left, ← hlen, List.take_left]
  have h12 : (idB ++ (lenB ++ crcB)).take 12 = idB ++ lenB := by
    simp [List.take_append, hid, hlen, List.take_of_length_le]
  have hc : (idB ++ (lenB ++ crcB)).drop 12 = crcB := by
    simp [List.drop_append, hid, hlen, List.drop_of_length_le]
  have h16 : ¬ (idB ++ (lenB ++ crcB)).length < recordHeaderLen := by
    simp [recordHeaderLen, hid, hlen, hcrc]
  have hshort : (body.take (leNat lenB)).length < leNat lenB ↔ body.length < leNat lenB := by
    rw [List.length_take]; omega
  simp only [readNextRecordWithOffset, hheader, hbody, h8, h4, h12, hc, if_neg h16, hshort]

/-- Every file of at least sixteen bytes has those four fields. -/
theorem exists_frame (h : recordHeaderLen ≤ file.length) :
    ∃ idB lenB crcB body : Bytes, idB.length = 8 ∧ lenB.length = 4 ∧ crcB.length = 4 ∧
      file = idB ++ (lenB ++ (crcB ++ body)) := by
  have h16 : 16 ≤ file.length := h
  refine ⟨file.take 8, (file.drop 8).take 4, (file.drop 12).take 4, file.drop 16,
    ?_, ?_, ?_, ?_⟩
  · simp; omega
  · simp; omega
  · simp; omega
  · rw [show file.drop 16 = (file.drop 12).drop 4 from by rw [List.drop_drop],
      List.take_append_drop, show file.drop 12 = (file.drop 8).drop 4 from by rw [List.drop_drop],
      List.take_append_drop, List.take_append_drop]

theorem readNext_short (h : file.length < recordHeaderLen) (offset : Nat) :
    readNextRecordWithOffset crc file offset = .ok none := by
  have hshort : (file.take recordHeaderLen).length < recordHeaderLen := by
    rw [List.length_take]; omega
  unfold readNextRecordWithOffset
  dsimp only
  rw [if_pos hshort]

/-- The four fields of a written record. -/
theorem encodeRecord_frame (r : WalRecord) (rest : Bytes) :
    encodeRecord crc r ++ rest = leBytes 8 r.id ++ (leBytes 4 r.payload.length ++
      (leBytes 4 (crc (leBytes 8 r.id ++ leBytes 4 r.payload.length ++ r.payload)).toNat ++
        (r.payload ++ rest))) := by
  simp [encodeRecord, recordHeader]

theorem leNat_crc (c : UInt32) : leNat (leBytes 4 c.toNat) = c.toNat :=
  leNat_leBytes (lt_of_lt_of_eq c.toNat_lt (by decide))

theorem WalRecord.Fits.leNat_id (h : r.Fits) : leNat (leBytes 8 r.id) = r.id :=
  leNat_leBytes (lt_of_lt_of_eq h.id_lt (by decide))

theorem WalRecord.Fits.leNat_len (h : r.Fits) :
    leNat (leBytes 4 r.payload.length) = r.payload.length :=
  leNat_leBytes (lt_of_lt_of_eq h.len_lt (by decide))

theorem readNext_encodeRecord (h : r.Fits) (rest : Bytes) (offset : Nat) :
    readNextRecordWithOffset crc (encodeRecord crc r ++ rest) offset =
      .ok (some (r.id, r.payload, offset, r.size)) := by
  rw [encodeRecord_frame, readNext_frame (by simp) (by simp) (by simp)]
  simp [h.leNat_len, h.leNat_id, leNat_crc, WalRecord.size]

/-- What the reader accepts is a written record, and the file goes on after it. -/
theorem readNext_some {o n : Nat}
    (h : readNextRecordWithOffset crc file offset = .ok (some (id, payload, o, n))) :
    o = offset ∧ n = (WalRecord.mk id payload).size ∧ (WalRecord.mk id payload).Fits ∧
      file = encodeRecord crc ⟨id, payload⟩ ++ file.drop n := by
  by_cases h16 : file.length < recordHeaderLen
  · rw [readNext_short h16] at h; cases h
  obtain ⟨idB, lenB, crcB, body, hid, hlen, hcrc, rfl⟩ := exists_frame (Nat.not_lt.mp h16)
  rw [readNext_frame hid hlen hcrc] at h
  split at h
  · cases h
  rename_i hbody
  split at h
  · cases h
  rename_i hsum
  simp only [Except.ok.injEq, Option.some.injEq, Prod.mk.injEq] at h
  obtain ⟨rfl, rfl, rfl, rfl⟩ := h
  have hpl : (body.take (leNat lenB)).length = leNat lenB := by
    rw [List.length_take]; omega
  have hidB : leBytes 8 (leNat idB) = idB := by rw [← hid, leBytes_leNat]
  have hlenB : leBytes 4 (leNat lenB) = lenB := by rw [← hlen, leBytes_leNat]
  have hcrcB : leBytes 4 (leNat crcB) = crcB := by rw [← hcrc, leBytes_leNat]
  refine ⟨rfl, ?_, ⟨?_, ?_⟩, ?_⟩
  · simp only [WalRecord.size, hpl]
  · exact lt_of_lt_of_eq (leNat_lt idB) ((congrArg (256 ^ ·) hid).trans (by decide))
  · rw [hpl]
    exact lt_of_lt_of_eq (leNat_lt lenB) ((congrArg (256 ^ ·) hlen).trans (by decide))
  · have hdrop : (idB ++ (lenB ++ (crcB ++ body))).drop (recordHeaderLen + leNat lenB) =
        body.drop (leNat lenB) := by
      rw [← List.drop_drop]
      congr 1
      simp [recordHeaderLen, List.drop_append, hid, hlen, hcrc, List.drop_of_length_le]
    rw [encodeRecord_frame, hdrop]
    simp only [hpl, hidB, hlenB]
    rw [not_not.mp hsum, hcrcB, List.take_append_drop]

theorem readNext_error (h : readNextRecordWithOffset crc file offset = .error e) :
    e.IsCorruption := by
  by_cases h16 : file.length < recordHeaderLen
  · rw [readNext_short h16] at h; cases h
  obtain ⟨idB, lenB, crcB, body, hid, hlen, hcrc, rfl⟩ := exists_frame (Nat.not_lt.mp h16)
  rw [readNext_frame hid hlen hcrc] at h
  split at h
  · cases h
  · split at h <;> cases h
    trivial

/-- A torn record reads as the end of the file. -/
theorem readNext_torn {torn : Bytes} (h : TornRecord crc torn) (offset : Nat) :
    readNextRecordWithOffset crc torn offset = .ok none := by
  obtain ⟨r, hfits, hpre, hlt⟩ := h
  by_cases h16 : torn.length < recordHeaderLen
  · exact readNext_short h16 offset
  -- the whole header is there, so the announced length is the record's own
  obtain ⟨idB, lenB, crcB, body, hid, hlen, hcrc, rfl⟩ := exists_frame (Nat.not_lt.mp h16)
  obtain ⟨rest, hrest⟩ := hpre
  rw [← List.append_nil (encodeRecord crc r), encodeRecord_frame] at hrest
  simp only [List.append_assoc] at hrest
  obtain ⟨-, hrest⟩ := List.append_inj hrest (by simp [hid])
  obtain ⟨hlenB, -⟩ := List.append_inj hrest (by simp [hlen])
  rw [readNext_frame hid hlen hcrc, hlenB, hfits.leNat_len, if_pos]
  simp only [List.length_append, hid, hlen, hcrc, WalRecord.size, recordHeaderLen] at hlt
  omega

/-! ## Walking over a segment -/

/-- Where the reader stops does not depend on the offset it reports. -/
theorem readNext_none_offset (h : readNextRecordWithOffset crc file offset = .ok none)
    (offset' : Nat) : readNextRecordWithOffset crc file offset' = .ok none := by
  by_cases h16 : file.length < recordHeaderLen
  · exact readNext_short h16 offset'
  obtain ⟨idB, lenB, crcB, body, hid, hlen, hcrc, rfl⟩ := exists_frame (Nat.not_lt.mp h16)
  rw [readNext_frame hid hlen hcrc] at h ⊢
  split at h
  · rename_i hshort
    rw [if_pos hshort]
  · split at h <;> cases h

theorem readNext_drop_length {fuel o n : Nat}
    (h : readNextRecordWithOffset crc file offset = .ok (some (id, payload, o, n)))
    (hle : file.length ≤ fuel + 1) : (file.drop n).length ≤ fuel := by
  have hn := (readNext_some h).2.1
  have := WalRecord.le_size ⟨id, payload⟩
  rw [List.length_drop]
  omega

theorem walkRecords_nil (fuel offset : Nat) :
    walkRecords crc fuel [] offset = .ok ([], offset) := by
  cases fuel with
  | zero => rfl
  | succ fuel => simp [walkRecords, @readNext_short crc [] (by decide) offset]

/-- More fuel than bytes changes nothing. -/
theorem walkRecords_stable {m n : Nat} (hm : file.length ≤ m) (hn : file.length ≤ n) :
    walkRecords crc m file offset = walkRecords crc n file offset := by
  induction m generalizing n file offset with
  | zero =>
    obtain rfl : file = [] := List.eq_nil_of_length_eq_zero (by omega)
    rw [walkRecords_nil, walkRecords_nil]
  | succ m ih =>
    cases n with
    | zero =>
      obtain rfl : file = [] := List.eq_nil_of_length_eq_zero (by omega)
      rw [walkRecords_nil, walkRecords_nil]
    | succ n =>
      simp only [walkRecords]
      cases hread : readNextRecordWithOffset crc file offset with
      | error e => rfl
      | ok out =>
        match out, hread with
        | none, _ => rfl
        | some (id, payload, o, k), hread =>
          dsimp only
          rw [ih (readNext_drop_length hread hm) (readNext_drop_length hread hn)]

/-- The walk, one record at a time. -/
theorem scanRecords_eq (file : Bytes) (offset : Nat) :
    scanRecords crc file offset =
      match readNextRecordWithOffset crc file offset with
      | .error e => .error e
      | .ok none => .ok ([], offset)
      | .ok (some (id, payload, recordOffset, totalLen)) =>
        (scanRecords crc (file.drop totalLen) (offset + totalLen)).map
          fun out => ((⟨id, payload⟩, recordOffset) :: out.1, out.2) := by
  unfold scanRecords
  rw [walkRecords_stable (Nat.le_refl _) (Nat.le_succ file.length)]
  simp only [walkRecords]
  cases hread : readNextRecordWithOffset crc file offset with
  | error e => rfl
  | ok out =>
    match out, hread with
    | none, _ => rfl
    | some (id, payload, o, n), hread =>
      dsimp only
      rw [walkRecords_stable (readNext_drop_length hread (Nat.le_succ _)) (Nat.le_refl _)]

theorem scanRecords_none (h : readNextRecordWithOffset crc file offset = .ok none) :
    scanRecords crc file offset = .ok ([], offset) := by
  rw [scanRecords_eq, h]

theorem scanRecords_error (h : readNextRecordWithOffset crc file offset = .error e) :
    scanRecords crc file offset = .error e := by
  rw [scanRecords_eq, h]

theorem scanRecords_some {recordOffset totalLen : Nat}
    (h : readNextRecordWithOffset crc file offset =
      .ok (some (id, payload, recordOffset, totalLen))) :
    scanRecords crc file offset =
      (scanRecords crc (file.drop totalLen) (offset + totalLen)).map
        fun out => ((⟨id, payload⟩, recordOffset) :: out.1, out.2) := by
  rw [scanRecords_eq, h]

theorem scanRecords_nil (offset : Nat) : scanRecords crc [] offset = .ok ([], offset) :=
  scanRecords_none (readNext_short (by decide) offset)

theorem scanRecords_cons (h : r.Fits) (rest : Bytes) (offset : Nat) :
    scanRecords crc (encodeRecord crc r ++ rest) offset =
      (scanRecords crc rest (offset + r.size)).map
        fun out => ((r, offset) :: out.1, out.2) := by
  rw [scanRecords_some (readNext_encodeRecord h rest offset), ← encodeRecord_length crc r,
    List.drop_left]

/-- The walk passes the records written first and goes on behind them. -/
theorem scanRecords_append (h : ∀ r ∈ rs, r.Fits) (rest : Bytes) (offset : Nat) :
    scanRecords crc (encodeRecords crc rs ++ rest) offset =
      (scanRecords crc rest (offset + sizeAll rs)).map
        fun out => (located offset rs ++ out.1, out.2) := by
  induction rs generalizing offset with
  | nil =>
    simp only [encodeRecords_nil, List.nil_append, sizeAll_nil, Nat.add_zero, located]
    cases scanRecords crc rest offset <;> rfl
  | cons r rs ih =>
    rw [encodeRecords_cons, List.append_assoc, scanRecords_cons (h r (by simp)),
      ih (fun x hx => h x (by simp [hx])), sizeAll_cons, Nat.add_assoc]
    cases scanRecords crc rest (offset + (r.size + sizeAll rs)) <;> rfl

/-- Written records are read back, each where it was written. -/
theorem scanRecords_encodeRecords (h : ∀ r ∈ rs, r.Fits) {rest : Bytes}
    (hrest : readNextRecordWithOffset crc rest (offset + sizeAll rs) = .ok none) :
    scanRecords crc (encodeRecords crc rs ++ rest) offset =
      .ok (located offset rs, offset + sizeAll rs) := by
  rw [scanRecords_append h, scanRecords_none hrest]
  simp [Except.map]

/-- What a walk returns was written: the file starts with those records, and
behind them the reader finds no further one. -/
theorem scanRecords_ok {stop : Nat} {ps : List (WalRecord × Nat)}
    (h : scanRecords crc file offset = .ok (ps, stop)) :
    ∃ rs rest, file = encodeRecords crc rs ++ rest ∧ (∀ r ∈ rs, r.Fits) ∧
      ps = located offset rs ∧ stop = offset + sizeAll rs ∧
      readNextRecordWithOffset crc rest stop = .ok none := by
  have key : ∀ fuel (file : Bytes) (offset : Nat) ps, file.length ≤ fuel →
      walkRecords crc fuel file offset = .ok (ps, stop) →
      ∃ rs rest, file = encodeRecords crc rs ++ rest ∧ (∀ r ∈ rs, r.Fits) ∧
        ps = located offset rs ∧ stop = offset + sizeAll rs ∧
        readNextRecordWithOffset crc rest stop = .ok none := by
    intro fuel
    induction fuel with
    | zero =>
      intro file offset ps hle h
      obtain rfl : file = [] := List.eq_nil_of_length_eq_zero (by omega)
      cases h
      exact ⟨[], [], rfl, by simp, rfl, rfl, readNext_short (by decide) _⟩
    | succ fuel ih =>
      intro file offset ps hle h
      simp only [walkRecords] at h
      split at h
      · cases h
      · rename_i hread
        cases h
        exact ⟨[], file, rfl, by simp, rfl, rfl, hread⟩
      · rename_i id payload o n hread
        obtain ⟨ho, hn, hfits, hfile⟩ := readNext_some hread
        cases hw : walkRecords crc fuel (file.drop n) (offset + n) with
        | error e => rw [hw] at h; cases h
        | ok out =>
          rw [hw] at h
          simp only [Except.map, Except.ok.injEq, Prod.mk.injEq] at h
          obtain ⟨rfl, hstop⟩ := h
          obtain ⟨rs, rest, hdrop, hall, hps, hend, hrest⟩ :=
            ih (file.drop n) (offset + n) out.1 (readNext_drop_length hread hle)
              (by rw [hw, ← hstop])
          refine ⟨⟨id, payload⟩ :: rs, rest, ?_, ?_, ?_, ?_, hrest⟩
          · rw [encodeRecords_cons, List.append_assoc, ← hdrop, ← hfile]
          · intro r hr
            rcases List.mem_cons.mp hr with rfl | hr
            · exact hfits
            · exact hall r hr
          · rw [hps, ho, hn]; rfl
          · rw [hend, hn, sizeAll_cons, Nat.add_assoc]
  exact key file.length file offset ps (Nat.le_refl _) h

theorem scanRecords_isCorruption (h : scanRecords crc file offset = .error e) : e.IsCorruption := by
  have key : ∀ fuel (file : Bytes) (offset : Nat),
      walkRecords crc fuel file offset = .error e → e.IsCorruption := by
    intro fuel
    induction fuel with
    | zero => intro file offset h; cases h
    | succ fuel ih =>
      intro file offset h
      simp only [walkRecords] at h
      split at h
      · rename_i hread
        cases h
        exact readNext_error hread
      · cases h
      · rename_i id payload o n hread
        cases hw : walkRecords crc fuel (file.drop n) (offset + n) with
        | ok out => rw [hw] at h; cases h
        | error e' =>
          rw [hw] at h
          cases h
          exact ih _ _ hw
  exact key _ _ _ h

end Framing

end BlipMQ.Wal
