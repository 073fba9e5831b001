import BlipMQ.Wal.Durability
import BlipMQ.Wal.Recovered

/-!
# WAL — one flipped bit in a stored record

The checksum of a record covers its id, its length and its payload. A flip
in the id, the stored checksum or the payload is compared against it. A
flip in the length moves the end of the payload, and the reader looks for
the payload before it compares: a length that reaches past the end of the
file reads as a torn record.
-/

namespace BlipMQ.Wal

/-- What CRC-32 is relied on for: no single flipped bit goes unnoticed. -/
def DetectsFlips (crc : Bytes → UInt32) : Prop :=
  ∀ (bs : Bytes) (pos k : Nat), pos < bs.length → k < 8 → crc (flipAt bs pos k) ≠ crc bs

theorem crc32_detectsFlips : DetectsFlips Crc32.crc32 := by
  intro bs pos k hpos hk
  obtain ⟨front, b, back, rfl, rfl⟩ :
      ∃ front b back, bs = front ++ b :: back ∧ front.length = pos := by
    refine ⟨bs.take pos, bs[pos], bs.drop (pos + 1), ?_, by simp; omega⟩
    rw [← List.drop_eq_getElem_cons hpos, List.take_append_drop]
  have hflip : flipAt (front ++ b :: back) front.length k = front ++ flipBit k b :: back :=
    flipAt_append_right front (b :: back) 0 k
  rw [hflip]
  exact Crc32.crc32_byte_ne _ _ (flipBit_ne hk _)

section Flip

variable {crc : Bytes → UInt32}

/-! ## The flipped record, field by field -/

variable {pos : Nat}

theorem flipAt_append_of_le {as : Bytes} (h : as.length ≤ pos) (bs : Bytes) (k : Nat) :
    flipAt (as ++ bs) pos k = as ++ flipAt bs (pos - as.length) k := by
  conv_lhs => rw [show pos = as.length + (pos - as.length) from by omega]
  exact flipAt_append_right as bs _ k

/-- A mismatch of the checksum is an error. -/
theorem readNext_mismatch {idB lenB crcB : Bytes} (hid : idB.length = 8) (hlen : lenB.length = 4)
    (hcrc : crcB.length = 4) {payload rest : Bytes} (hpl : payload.length = leNat lenB)
    (hne : (crc (idB ++ lenB ++ payload)).toNat ≠ leNat crcB) (offset : Nat) :
    ∃ e, readNextRecordWithOffset crc (idB ++ (lenB ++ (crcB ++ (payload ++ rest)))) offset =
      .error e := by
  have htake : (payload ++ rest).take (leNat lenB) = payload := by rw [← hpl, List.take_left]
  rw [readNext_frame hid hlen hcrc, htake, if_neg (by simp [hpl]), if_pos hne]
  exact ⟨_, rfl⟩

/-- The length field after the flip of bit `k` in its byte `pos - 8`. -/
def flippedLen (r : WalRecord) (pos k : Nat) : Nat :=
  leNat (flipAt (leBytes 4 r.payload.length) (pos - 8) k)

/-- **A flip outside the length field is found**, and one in it changes only
what the reader takes for the length. -/
theorem readNext_flipped (hcrc : DetectsFlips crc) {r : WalRecord} (hfits : r.Fits) {k : Nat}
    (hpos : pos < r.size) (hk : k < 8) (rest : Bytes) (offset : Nat)
    (hout : ¬ (8 ≤ pos ∧ pos < 12)) :
    ∃ e, readNextRecordWithOffset crc (flipAt (encodeRecord crc r) pos k ++ rest) offset =
      .error e := by
  have hframe := @encodeRecord_frame crc r []
  simp only [List.append_nil] at hframe
  have hsum : ∀ c d : UInt32, c ≠ d → c.toNat ≠ leNat (leBytes 4 d.toNat) := by
    intro c d hne h
    rw [leNat_crc] at h
    exact hne (UInt32.toNat_inj.mp h)
  have hsize : r.size = 16 + r.payload.length := rfl
  rw [hframe]
  by_cases h8 : pos < 8
  · -- the id
    rw [flipAt_append_left (by simpa using h8)]
    simp only [List.append_assoc]
    refine readNext_mismatch (by simp) (by simp) (by simp) hfits.leNat_len.symm ?_ offset
    rw [List.append_assoc, ← flipAt_append_left (by simpa using h8), ← List.append_assoc]
    exact hsum _ _ (hcrc _ _ _ (by simp; omega) hk)
  · have h12 : 12 ≤ pos := by omega
    rw [flipAt_append_of_le (by simp; omega), flipAt_append_of_le (by simp; omega)]
    simp only [leBytes_length]
    by_cases h16 : pos < 16
    · -- the stored checksum
      rw [flipAt_append_left (by simp; omega)]
      simp only [List.append_assoc]
      refine readNext_mismatch (by simp) (by simp) (by simp) hfits.leNat_len.symm ?_ offset
      intro h
      rw [List.append_assoc] at h
      have hbytes := leNat_inj (by simp) ((leNat_crc _).trans h)
      exact flipAt_ne (by simp; omega) hk hbytes.symm
    · -- the payload
      rw [flipAt_append_of_le (by simp; omega)]
      simp only [leBytes_length, List.append_assoc]
      refine readNext_mismatch (by simp) (by simp) (by simp) ?_ ?_ offset
      · rw [flipAt_length, hfits.leNat_len]
      · have hback : leBytes 8 r.id ++ leBytes 4 r.payload.length ++
            flipAt r.payload (pos - 8 - 4 - 4) k =
            flipAt (leBytes 8 r.id ++ leBytes 4 r.payload.length ++ r.payload) (pos - 4) k := by
          rw [flipAt_append_of_le (by simp; omega)]
          simp only [List.length_append, leBytes_length]
          congr 2
        rw [hback, List.append_assoc]
        refine hsum _ _ (hcrc _ _ _ ?_ hk)
        simp
        omega

/-- The bytes from the record on happen to be records again, the first of
them under the flipped length. -/
def Reframed (crc : Bytes → UInt32) (bytes : Bytes) : Prop :=
  ∃ x rs rest, bytes = encodeRecords crc (x :: rs) ++ rest ∧ (∀ y ∈ x :: rs, y.Fits) ∧
    ∀ offset, readNextRecordWithOffset crc rest offset = .ok none

/-- A flip in the length field is found exactly if the flipped length stays
inside the file and the bytes do not happen to be framed by it. -/
theorem scan_flipped_len_iff {r : WalRecord} {k : Nat} (h8 : 8 ≤ pos) (h12 : pos < 12)
    (rest : Bytes) (offset : Nat) :
    (∃ e, scanRecords crc (flipAt (encodeRecord crc r) pos k ++ rest) offset = .error e) ↔
      flippedLen r pos k ≤ r.payload.length + rest.length ∧
        ¬ Reframed crc (flipAt (encodeRecord crc r) pos k ++ rest) := by
  have hframe : flipAt (encodeRecord crc r) pos k ++ rest =
      leBytes 8 r.id ++ (flipAt (leBytes 4 r.payload.length) (pos - 8) k ++
        (leBytes 4 (crc (leBytes 8 r.id ++ leBytes 4 r.payload.length ++ r.payload)).toNat ++
          (r.payload ++ rest))) := by
    have h := @encodeRecord_frame crc r []
    simp only [List.append_nil] at h
    rw [h, flipAt_append_of_le (by simpa using h8), leBytes_length,
      flipAt_append_left (by simp; omega)]
    simp only [List.append_assoc]
  have hread := @readNext_frame crc (leBytes 8 r.id)
    (flipAt (leBytes 4 r.payload.length) (pos - 8) k)
    (leBytes 4 (crc (leBytes 8 r.id ++ leBytes 4 r.payload.length ++ r.payload)).toNat)
    (by simp) (by simp) (by simp) (r.payload ++ rest) offset
  rw [← hframe] at hread
  constructor
  · rintro ⟨e, he⟩
    constructor
    · by_contra hlong
      have hshort : (r.payload ++ rest).length <
          leNat (flipAt (leBytes 4 r.payload.length) (pos - 8) k) := by
        rw [List.length_append]
        exact Nat.not_le.mp hlong
      rw [if_pos hshort] at hread
      rw [scanRecords_none hread] at he
      cases he
    · rintro ⟨x, rs, tail, hbytes, hfits, hends⟩
      rw [hbytes, scanRecords_encodeRecords hfits (hends _)] at he
      cases he
  · rintro ⟨hlen, hnot⟩
    cases hscan : scanRecords crc (flipAt (encodeRecord crc r) pos k ++ rest) offset with
    | error e => exact ⟨e, rfl⟩
    | ok out =>
      exfalso
      obtain ⟨rs, tail, hbytes, hfits, -, -, hends⟩ := scanRecords_ok hscan
      cases rs with
      | cons x rs => exact hnot ⟨x, rs, tail, hbytes, hfits, readNext_none_offset hends⟩
      | nil =>
        -- the reader stopped at once, though the flipped length is there
        have hnone := readNext_none_offset hends offset
        rw [encodeRecords_nil, List.nil_append] at hbytes
        rw [← hbytes, hread,
          if_neg (by rw [List.length_append]; exact Nat.not_lt.mpr hlen)] at hnone
        split at hnone <;> cases hnone

/-! ## Opening the flipped directory -/

theorem openSegments_isCorruption {files : List (Nat × Bytes)} {st : Index × Nat}
    {tail : Nat × Nat} {e : WalError} (h : openSegments crc files st tail = .error e) :
    e.IsCorruption := by
  induction files generalizing st tail with
  | nil => cases h
  | cons p files ih =>
    simp only [openSegments] at h
    split at h
    · rename_i hheader
      cases h
      exact validateHeader_error hheader
    · split at h
      · rename_i hindex
        cases h
        rw [rebuildSegmentIndex] at hindex
        cases hscan : scanRecords crc (p.2.drop headerLen) headerLen with
        | error e' =>
          rw [hscan] at hindex
          cases hindex
          exact scanRecords_isCorruption hscan
        | ok out => rw [hscan] at hindex; cases hindex
      · exact ih h

theorem WalError.IsCorruption.exists_reason {e : WalError} (h : e.IsCorruption) :
    ∃ reason, e = .corruption reason := by
  cases e with
  | corruption reason => exact ⟨reason, rfl⟩
  | io | backpressure | writerStopped | invalidConfig => cases h

theorem openWithConfig_corruption_iff {config : WalConfig} (hconf : config.Valid)
    {dir : Dir Bytes} (hne : dir.files ≠ []) :
    (∃ reason, openWithConfig crc config (.directory dir) = .error (.corruption reason)) ↔
      ∃ e, openSegments crc dir.files (∅, 1) (0, headerLen) = .error e := by
  rw [openWithConfig_directory hconf hne]
  constructor
  · rintro ⟨reason, h⟩
    cases hsegs : openSegments crc dir.files (∅, 1) (0, headerLen) with
    | error e => exact ⟨e, rfl⟩
    | ok out => rw [hsegs] at h; cases h
  · rintro ⟨e, he⟩
    obtain ⟨reason, rfl⟩ := (openSegments_isCorruption he).exists_reason
    exact ⟨reason, by rw [he]; rfl⟩

/-- **A flipped bit of a stored record is reported as corruption** if it is
outside the length field. In the length field it is exactly if the flipped
length stays inside the file and the bytes are not framed by it again. -/
theorem openWithConfig_flipped_iff (hcrc : DetectsFlips crc) {config : WalConfig}
    (hconf : config.Valid) {dir : Dir Bytes} {segs : List StoredSegment}
    (hclean : CleanLog crc dir segs) {as bs : List StoredSegment} {seg : StoredSegment}
    (hsegs : segs = as ++ seg :: bs) {front back : List WalRecord} {r : WalRecord}
    (hrec : seg.records = front ++ r :: back) {pos k : Nat} (hpos : pos < r.size) (hk : k < 8) :
    (∃ reason, openWithConfig crc config (.directory (dir.modify seg.seq fun file =>
      flipAt file (headerLen + sizeAll front + pos) k)) = .error (.corruption reason)) ↔
      (¬ (8 ≤ pos ∧ pos < 12) ∨
        flippedLen r pos k ≤ r.payload.length + sizeAll back ∧
          ¬ Reframed crc (flipAt (encodeRecord crc r) pos k ++ encodeRecords crc back)) := by
  have hwf := hclean.wellFormed
  subst hsegs
  have hfits := (hwf seg (by simp)).fits
  have hrest := hclean.whole seg (by simp)
  have hfile : (seg.file crc).2 = segmentHeader ++ (encodeRecords crc front ++
      (encodeRecord crc r ++ encodeRecords crc back)) := by
    simp [StoredSegment.file, hrec, hrest]
  have hflip : flipAt (seg.file crc).2 (headerLen + sizeAll front + pos) k =
      segmentHeader ++ (encodeRecords crc front ++
        (flipAt (encodeRecord crc r) pos k ++ encodeRecords crc back)) := by
    rw [hfile, flipAt_append_of_le (by simp; omega), flipAt_append_of_le (by simp; omega),
      flipAt_append_left (by simp; omega)]
    congr 4
    simp
    omega
  have hdir : dir.files = as.map (StoredSegment.file crc) ++
      (seg.seq, (seg.file crc).2) :: bs.map (StoredSegment.file crc) := by
    rw [hclean.files, List.map_append, List.map_cons]
    rfl
  have hfiles := Dir.modify_files hdir
    fun file => flipAt file (headerLen + sizeAll front + pos) k
  rw [hflip] at hfiles
  have hscan := @openSegments_damaged_iff crc as bs
    (fun x hx => hwf x (by simp only [List.mem_append, List.mem_cons] at hx ⊢; tauto)) front
    (fun x hx => hfits x (by rw [hrec]; exact List.mem_append_left _ hx)) seg.seq
    (flipAt (encodeRecord crc r) pos k ++ encodeRecords crc back) (∅, 1) (0, headerLen)
  rw [← hfiles] at hscan
  rw [openWithConfig_corruption_iff hconf (by rw [hfiles]; simp), hscan]
  by_cases hin : 8 ≤ pos ∧ pos < 12
  · rw [scan_flipped_len_iff hin.1 hin.2, encodeRecords_length]
    simp [hin]
  · refine ⟨fun _ => .inl hin, fun _ => ?_⟩
    obtain ⟨e, he⟩ := readNext_flipped hcrc (hfits r (by rw [hrec]; simp)) hpos hk
      (encodeRecords crc back) (headerLen + sizeAll front) hin
    exact ⟨e, scanRecords_error he⟩

/-- A log with one record of one byte. -/
def oneRecordLog : Dir Bytes :=
  Dir.empty.insert 1 (segmentHeader ++ encodeRecord Crc32.crc32 ⟨1, [7]⟩)

theorem openWithConfig_flipped_iff_payload :
    ∃ reason, openWithConfig Crc32.crc32 tinyConfig (.directory (oneRecordLog.modify 1 fun file =>
      flipAt file (headerLen + sizeAll [] + 16) 0)) = .error (.corruption reason) := by
  have hclean : CleanLog Crc32.crc32 oneRecordLog [⟨1, [⟨1, [7]⟩], []⟩] := by
    refine ⟨by decide +kernel, by simp, ?_, by decide⟩
    intro r hr
    obtain rfl : r = ⟨1, [7]⟩ := by simpa [allRecords] using hr
    exact ⟨⟨by decide, by decide⟩, by decide⟩
  have hiff := @openWithConfig_flipped_iff Crc32.crc32 crc32_detectsFlips tinyConfig
    ⟨by decide, by decide⟩ oneRecordLog _ hclean [] [] _ rfl [] [] ⟨1, [7]⟩ rfl 16 0
    (by decide) (by decide)
  exact hiff.mpr (.inl (by decide))

/-- One flipped bit in the length of the only record, and the log opens as if
it had never been written. -/
theorem flipped_len_opens_without_record :
    ∃ s, run (step Crc32.crc32) (freshLog.start tinyConfig fun _ => headerLen) oneAppendRun =
        some s ∧
      s.answers = [(⟨⟨1, [7]⟩, true⟩, .ok ())] ∧
      ∃ o, openWithConfig Crc32.crc32 tinyConfig (.directory (s.contents.modify 1 fun file =>
          flipAt file (headerLen + 8) 1)) = .ok o ∧
        o.index.lookup 1 = none := by
  decide +kernel

end Flip

end BlipMQ.Wal
