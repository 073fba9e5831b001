import BlipMQ.Lib.Crc32
import BlipMQ.Wal.Record

/-!
# WAL — the language of segment files

The scan of a segment is a loop that ends when the reader finds no further
record. Here is the loop as the source has it, without a bound on its rounds,
and the language it accepts: a header, written records, and a rest that is
too short to be one.
-/

namespace BlipMQ.Wal

section Grammar

variable (crc : Bytes → UInt32)

/-! ## The loop -/

/-- The loop of `rebuild_segment_index`: the bytes from the cursor on, the
three variables it keeps, and what it returns. -/
inductive RebuildLoop :
    Bytes → List (Nat × Nat) → Nat → Nat → Except WalError (List (Nat × Nat) × Nat × Nat) → Prop
  | stop {file : Bytes} {records : List (Nat × Nat)} {nextId offset : Nat}
      (hread : readNextRecordWithOffset crc file offset = .ok none) :
      RebuildLoop file records nextId offset (.ok (records, nextId, offset))
  | fail {file : Bytes} {records : List (Nat × Nat)} {nextId offset : Nat} {e : WalError}
      (hread : readNextRecordWithOffset crc file offset = .error e) :
      RebuildLoop file records nextId offset (.error e)
  | record {file payload : Bytes} {records : List (Nat × Nat)}
      {nextId offset id recordOffset totalLen : Nat}
      {result : Except WalError (List (Nat × Nat) × Nat × Nat)}
      (hread : readNextRecordWithOffset crc file offset =
        .ok (some (id, payload, recordOffset, totalLen)))
      (hrest : RebuildLoop (file.drop totalLen) (records ++ [(id, recordOffset)])
        ((id + 1) % 2 ^ 64) (offset + totalLen) result) :
      RebuildLoop file records nextId offset result

/-- What the loop makes of the records ahead. -/
def rebuilt (records : List (Nat × Nat)) (nextId : Nat) (out : List (WalRecord × Nat) × Nat) :
    List (Nat × Nat) × Nat × Nat :=
  (records ++ out.1.map (fun p => (p.1.id, p.2)),
    (match out.1.getLast? with
      | none => nextId
      | some p => (p.1.id + 1) % 2 ^ 64),
    out.2)

theorem rebuilt_cons (records : List (Nat × Nat)) (nextId : Nat) (p : WalRecord × Nat)
    (out : List (WalRecord × Nat) × Nat) :
    rebuilt records nextId (p :: out.1, out.2) =
      rebuilt (records ++ [(p.1.id, p.2)]) ((p.1.id + 1) % 2 ^ 64) out := by
  unfold rebuilt
  cases h : out.1.getLast? <;> simp [List.getLast?_cons, h]

theorem rebuildSegmentIndex_eq (file : Bytes) : rebuildSegmentIndex crc file =
    (scanRecords crc (file.drop headerLen) headerLen).map (rebuilt [] 1) := rfl

variable {crc}

/-- One more record in front of a walk. -/
theorem map_rebuilt_cons (records : List (Nat × Nat)) (nextId : Nat) (p : WalRecord × Nat)
    (r : Except WalError (List (WalRecord × Nat) × Nat)) :
    (r.map fun out => (p :: out.1, out.2)).map (rebuilt records nextId) =
      r.map (rebuilt (records ++ [(p.1.id, p.2)]) ((p.1.id + 1) % 2 ^ 64)) := by
  cases r with
  | error e => rfl
  | ok out => exact congrArg Except.ok (rebuilt_cons records nextId p out)

theorem RebuildLoop.result_eq {file : Bytes} {records : List (Nat × Nat)} {nextId offset : Nat}
    {result : Except WalError (List (Nat × Nat) × Nat × Nat)}
    (h : RebuildLoop crc file records nextId offset result) :
    result = (scanRecords crc file offset).map (rebuilt records nextId) := by
  induction h with
  | stop hread =>
    rw [scanRecords_none hread]
    simp [Except.map, rebuilt]
  | fail hread =>
    rw [scanRecords_error hread]
    rfl
  | @record file payload records nextId offset id recordOffset totalLen result hread hrest ih =>
    rw [ih, scanRecords_some hread, map_rebuilt_cons]

/-- The loop ends on every file: each round takes a record of at least sixteen
bytes. -/
theorem rebuildLoop_exists (file : Bytes) (records : List (Nat × Nat)) (nextId offset : Nat) :
    ∃ result, RebuildLoop crc file records nextId offset result := by
  induction hlen : file.length using Nat.strongRecOn generalizing file records nextId offset with
  | ind n ih =>
    cases hread : readNextRecordWithOffset crc file offset with
    | error e => exact ⟨_, .fail hread⟩
    | ok out =>
      cases out with
      | none => exact ⟨_, .stop hread⟩
      | some found =>
        obtain ⟨id, payload, recordOffset, totalLen⟩ := found
        obtain ⟨-, htotal, -, hfile⟩ := readNext_some hread
        have hshorter : (file.drop totalLen).length < n := by
          have hsize := congrArg List.length hfile
          have hle := WalRecord.le_size ⟨id, payload⟩
          rw [List.length_append, encodeRecord_length] at hsize
          omega
        obtain ⟨result, hresult⟩ := ih _ hshorter (file.drop totalLen)
          (records ++ [(id, recordOffset)]) ((id + 1) % 2 ^ 64) (offset + totalLen) rfl
        exact ⟨result, .record hread hresult⟩

/-- **The loop returns on every file, with the result of the model.** -/
theorem rebuildLoop_iff (file : Bytes) (result : Except WalError (List (Nat × Nat) × Nat × Nat)) :
    RebuildLoop crc (file.drop headerLen) [] 1 headerLen result ↔
      result = rebuildSegmentIndex crc file := by
  constructor
  · exact RebuildLoop.result_eq
  · rintro rfl
    have hends : ∃ result, RebuildLoop crc (file.drop headerLen) [] 1 headerLen result :=
      rebuildLoop_exists _ _ _ _
    obtain ⟨result, hresult⟩ := hends
    rw [rebuildSegmentIndex_eq, ← hresult.result_eq]
    exact hresult

/-! ## The language -/

/-- The payload length a record header announces. -/
def announcedLen (header : Bytes) : Nat := leNat ((header.drop 8).take 4)

/-- The reader finds no further record exactly if the rest is too short for one. -/
theorem readNext_none_iff {rest : Bytes} {offset : Nat} :
    readNextRecordWithOffset crc rest offset = .ok none ↔
      rest.length < recordHeaderLen ∨ rest.length < recordHeaderLen + announcedLen rest := by
  by_cases hshort : rest.length < recordHeaderLen
  · exact iff_of_true (readNext_short hshort offset) (.inl hshort)
  obtain ⟨idB, lenB, crcB, body, hid, hlen, hcrc, rfl⟩ := exists_frame (Nat.not_lt.mp hshort)
  have hannounced : announcedLen (idB ++ (lenB ++ (crcB ++ body))) = leNat lenB := by
    rw [announcedLen, ← hid, List.drop_left, ← hlen, List.take_left]
  have hsize : (idB ++ (lenB ++ (crcB ++ body))).length = recordHeaderLen + body.length := by
    simp only [List.length_append, hid, hlen, hcrc, recordHeaderLen]
    omega
  rw [readNext_frame hid hlen hcrc, hannounced, hsize]
  by_cases hbody : body.length < leNat lenB
  · rw [if_pos hbody]
    exact iff_of_true rfl (.inr (Nat.add_lt_add_left hbody _))
  · rw [if_neg hbody]
    have hlong : ¬ (recordHeaderLen + body.length < recordHeaderLen ∨
        recordHeaderLen + body.length < recordHeaderLen + leNat lenB) := by
      omega
    split <;> exact iff_of_false (by simp) hlong

/-- Records follow one another in their file. -/
theorem located_pairwise (offset : Nat) (rs : List WalRecord) :
    ((located offset rs).map Prod.snd).Pairwise (· < ·) ∧
      ∀ o ∈ (located offset rs).map Prod.snd, offset ≤ o := by
  induction rs generalizing offset with
  | nil => exact ⟨.nil, List.forall_mem_nil _⟩
  | cons r rs ih =>
    obtain ⟨hpairwise, hle⟩ := ih (offset + r.size)
    have hsize := r.le_size
    refine ⟨List.pairwise_cons.mpr ⟨?_, hpairwise⟩, List.forall_mem_cons.mpr ⟨Nat.le_refl _, ?_⟩⟩
    · intro o ho
      have := hle o ho
      omega
    · intro o ho
      have := hle o ho
      omega

/-- A segment file with `records`, whose last record ends at `stop`: a header,
the records one behind the other, and a rest too short for another one. -/
structure SegmentFile (crc : Bytes → UInt32) (file : Bytes) (records : List (Nat × Nat))
    (stop : Nat) : Prop where
  layout : ∃ (header : Bytes) (rs : List WalRecord) (rest : Bytes),
    file = header ++ (encodeRecords crc rs ++ rest) ∧ header.length = headerLen ∧
    (∀ r ∈ rs, r.Fits) ∧
    records = (located headerLen rs).map (fun p => (p.1.id, p.2)) ∧
    stop = headerLen + sizeAll rs ∧
    (rest.length < recordHeaderLen ∨ rest.length < recordHeaderLen + announcedLen rest)
  increasing : (records.map Prod.snd).Pairwise (· < ·)

theorem rebuildSegmentIndex_ok_iff {file : Bytes} (hlen : headerLen ≤ file.length)
    {records : List (Nat × Nat)} {stop : Nat} :
    (∃ next, rebuildSegmentIndex crc file = .ok (records, next, stop)) ↔
      SegmentFile crc file records stop := by
  rw [rebuildSegmentIndex_eq]
  constructor
  · rintro ⟨next, h⟩
    obtain ⟨⟨found, stop'⟩, hscan, hout⟩ := map_eq_ok.mp h
    obtain ⟨rs, rest, hfile, hfits, rfl, rfl, hrest⟩ := scanRecords_ok hscan
    cases hout
    refine ⟨⟨file.take headerLen, rs, rest, ?_, ?_, hfits, rfl, rfl, readNext_none_iff.mp hrest⟩,
      ?_⟩
    · rw [← hfile, List.take_append_drop]
    · rw [List.length_take, Nat.min_eq_left hlen]
    · rw [List.nil_append, List.map_map]
      exact (located_pairwise headerLen rs).1
  · rintro ⟨⟨header, rs, rest, rfl, hheader, hfits, rfl, rfl, hrest⟩, -⟩
    rw [← hheader, List.drop_left, hheader,
      scanRecords_encodeRecords hfits (readNext_none_iff.mpr hrest)]
    exact ⟨_, rfl⟩

/-- **The scan accepts exactly the record grammar.** On every file with room for
a header the loop ends. It returns records and an end offset exactly if the
file is a header, those records where they are said to stand, and a rest that
is no whole record; on every other file it reports corruption. -/
theorem rebuild_accepts_grammar (crc : Bytes → UInt32) (file : Bytes)
    (hlen : headerLen ≤ file.length) :
    (∀ result, RebuildLoop crc (file.drop headerLen) [] 1 headerLen result ↔
      result = rebuildSegmentIndex crc file) ∧
    (∀ records stop, (∃ next, rebuildSegmentIndex crc file = .ok (records, next, stop)) ↔
      SegmentFile crc file records stop) ∧
    ((¬ ∃ records stop, SegmentFile crc file records stop) →
      ∃ reason, rebuildSegmentIndex crc file = .error (.corruption reason)) := by
  refine ⟨rebuildLoop_iff file, fun _ _ => rebuildSegmentIndex_ok_iff hlen, ?_⟩
  intro hother
  cases hscan : scanRecords crc (file.drop headerLen) headerLen with
  | ok out =>
    have hok : rebuildSegmentIndex crc file = .ok (rebuilt [] 1 out) := by
      rw [rebuildSegmentIndex_eq, hscan]
      rfl
    exact absurd ⟨_, _, (rebuildSegmentIndex_ok_iff hlen).mp ⟨_, hok⟩⟩ hother
  | error e =>
    have hcorrupt := scanRecords_isCorruption hscan
    rw [rebuildSegmentIndex_eq, hscan]
    cases e with
    | corruption reason => exact ⟨reason, rfl⟩
    | _ => exact hcorrupt.elim

/-- A header, two records and the first bytes of a third. -/
theorem rebuild_accepts_grammar_torn :
    let file := segmentHeader ++
      (encodeRecords Crc32.crc32 [⟨7, [1, 2, 3]⟩, ⟨8, [4, 5]⟩] ++ [9, 0, 0, 0, 0, 0, 0, 0, 1])
    headerLen ≤ file.length ∧
      rebuildSegmentIndex Crc32.crc32 file = .ok ([(7, 32), (8, 51)], 9, 69) ∧
      SegmentFile Crc32.crc32 file [(7, 32), (8, 51)] 69 := by
  intro file
  have hlen : headerLen ≤ file.length := by decide
  have hok : rebuildSegmentIndex Crc32.crc32 file = .ok ([(7, 32), (8, 51)], 9, 69) := by
    decide +kernel
  exact ⟨hlen, hok, ((rebuild_accepts_grammar _ _ hlen).2.1 _ _).mp ⟨9, hok⟩⟩

end Grammar

end BlipMQ.Wal
