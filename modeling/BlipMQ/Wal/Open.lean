import Mathlib.Data.List.AList
import Mathlib.Data.List.MinMax
import BlipMQ.Lib.Dir
import BlipMQ.Wal.Record

/-!
# WAL — opening a log and reading it

`open_with_config` walks every segment of the directory, in ascending
order of the number in its name, and rebuilds the index from record id to
location. `iterate_from` looks up the smallest qualifying id in the index
and walks on from there. File offsets and segment numbers are naturals:
the overflow checks of the source (`offset overflow`) concern files of
`2 ^ 64` bytes.
-/

namespace BlipMQ.Wal

structure WalConfig where
  fsyncEveryN : Option Nat
  fsyncInterval : Option Nat
  channelCapacity : Nat
  segmentBytes : Nat
  deriving DecidableEq, Repr

def WalConfig.default : WalConfig where
  fsyncEveryN := some 64
  fsyncInterval := none
  channelCapacity := 1024
  segmentBytes := 256 * 1024 * 1024

/-- Where in the segmented log a record lives. -/
structure RecordLocation where
  segmentSeq : Nat
  offsetInSegment : Nat
  deriving DecidableEq, Repr

/-- The in-memory index, a hash map from record id to location. -/
abbrev Index := AList fun _ : Nat => RecordLocation

/-- Index entries of records written one after another from `offset` on. -/
def locationsFrom (seq offset : Nat) (rs : List WalRecord) : List (Nat × RecordLocation) :=
  (located offset rs).map fun p => (p.1.id, ⟨seq, p.2⟩)

def insertAll (index : Index) (entries : List (Nat × RecordLocation)) : Index :=
  entries.foldl (fun index e => index.insert e.1 e.2) index

theorem insertAll_append (index : Index) (as bs : List (Nat × RecordLocation)) :
    insertAll index (as ++ bs) = insertAll (insertAll index as) bs := by
  simp [insertAll, List.foldl_append]

variable {entries : List (Nat × RecordLocation)} {loc : RecordLocation} {id : Nat} {index : Index}

/-- Entries under other ids do not touch an id. -/
theorem lookup_insertAll_of_notMem (h : id ∉ entries.map Prod.fst) :
    (insertAll index entries).lookup id = index.lookup id := by
  induction entries generalizing index with
  | nil => rfl
  | cons e entries ih =>
    simp only [List.map_cons, List.mem_cons, not_or] at h
    show (insertAll (index.insert e.1 e.2) entries).lookup id = _
    rw [ih h.2, AList.lookup_insert_ne h.1]

/-- The last entry under an id is the one that counts. -/
theorem lookup_insertAll {front back : List (Nat × RecordLocation)} (h : id ∉ back.map Prod.fst) :
    (insertAll index (front ++ (id, loc) :: back)).lookup id = some loc := by
  rw [insertAll_append]
  show (insertAll ((insertAll index front).insert id loc) back).lookup id = _
  rw [lookup_insertAll_of_notMem h, AList.lookup_insert]

theorem lookup_insertAll_of_mem (hnd : (entries.map Prod.fst).Nodup) (h : (id, loc) ∈ entries) :
    (insertAll index entries).lookup id = some loc := by
  obtain ⟨front, back, rfl⟩ := List.append_of_mem h
  refine lookup_insertAll fun hmem => ?_
  rw [List.map_append, List.map_cons] at hnd
  exact (List.nodup_cons.mp (List.nodup_append.mp hnd).2.1).1 hmem

theorem exists_lookup_insertAll (h : id ∈ entries.map Prod.fst) (index : Index) :
    ∃ loc, (id, loc) ∈ entries ∧ (insertAll index entries).lookup id = some loc := by
  induction entries generalizing index with
  | nil => cases h
  | cons e entries ih =>
    by_cases hmem : id ∈ entries.map Prod.fst
    · obtain ⟨loc, hloc, hlook⟩ := ih hmem (index.insert e.1 e.2)
      exact ⟨loc, List.mem_cons_of_mem _ hloc, hlook⟩
    · obtain rfl : id = e.1 := by
        rw [List.map_cons, List.mem_cons] at h
        exact h.resolve_right hmem
      refine ⟨e.2, List.mem_cons_self, ?_⟩
      show (insertAll (index.insert e.1 e.2) entries).lookup e.1 = _
      rw [lookup_insertAll_of_notMem hmem, AList.lookup_insert]

/-- Under the id of an entry it does not matter what was there before. -/
theorem lookup_insertAll_congr (h : id ∈ entries.map Prod.fst) (index index' : Index) :
    (insertAll index entries).lookup id = (insertAll index' entries).lookup id := by
  induction entries generalizing index index' with
  | nil => cases h
  | cons e entries ih =>
    by_cases hmem : id ∈ entries.map Prod.fst
    · exact ih hmem _ _
    · obtain rfl : id = e.1 := by
        rw [List.map_cons, List.mem_cons] at h
        exact h.resolve_right hmem
      show (insertAll (index.insert e.1 e.2) entries).lookup e.1 =
        (insertAll (index'.insert e.1 e.2) entries).lookup e.1
      rw [lookup_insertAll_of_notMem hmem, lookup_insertAll_of_notMem hmem, AList.lookup_insert,
        AList.lookup_insert]

/-- Entering the same into a larger index gives a larger index. -/
theorem lookup_insertAll_mono {index' : Index}
    (hsub : index.lookup id = some loc → index'.lookup id = some loc)
    (h : (insertAll index entries).lookup id = some loc) :
    (insertAll index' entries).lookup id = some loc := by
  by_cases hmem : id ∈ entries.map Prod.fst
  · rwa [lookup_insertAll_congr hmem index' index]
  · rw [lookup_insertAll_of_notMem hmem] at h ⊢
    exact hsub h

/-- What the index holds came from an entry or was there before. -/
theorem mem_of_lookup_insertAll (h : (insertAll index entries).lookup id = some loc) :
    (id, loc) ∈ entries ∨ index.lookup id = some loc := by
  induction entries generalizing index with
  | nil => exact .inr h
  | cons e entries ih =>
    rcases ih h with hmem | hlook
    · exact .inl (List.mem_cons_of_mem _ hmem)
    · by_cases he : id = e.1
      · subst he
        rw [AList.lookup_insert, Option.some.injEq] at hlook
        subst hlook
        exact .inl List.mem_cons_self
      · rw [AList.lookup_insert_ne he] at hlook
        exact .inr hlook

theorem mem_of_lookup_insertAll_empty (h : (insertAll ∅ entries).lookup id = some loc) :
    (id, loc) ∈ entries := by
  refine (mem_of_lookup_insertAll h).resolve_right fun hnone => ?_
  rw [AList.lookup_empty] at hnone
  cases hnone

@[simp] theorem locationsFrom_ids (seq offset : Nat) (rs : List WalRecord) :
    (locationsFrom seq offset rs).map Prod.fst = rs.map WalRecord.id := by
  rw [locationsFrom, List.map_map]
  show (located offset rs).map (WalRecord.id ∘ Prod.fst) = _
  rw [← List.map_map, located_map_fst]

/-- What the path handed to `open_with_config` names; a path that does not
exist yet is an empty directory. -/
inductive WalPath where
  | file (display : String)
  | directory (dir : Dir Bytes)

/-- What `open_with_config` hands to the log and to its writer task. -/
structure Opened where
  dir : Dir Bytes
  index : Index
  nextId : Nat
  currentSeq : Nat
  currentOffset : Nat

section Open

variable (crc : Bytes → UInt32)

/-- One record of segment `seq` enters the index and moves `next_id`. -/
def indexRecord (seq : Nat) (st : Index × Nat) (entry : Nat × Nat) : Index × Nat :=
  (st.1.insert entry.1 ⟨seq, entry.2⟩,
    -- `wrapping_add`: after the highest id the count starts over
    if st.2 ≤ entry.1 then (entry.1 + 1) % 2 ^ 64 else st.2)

/-- The loop of `open_with_config` over the segments, ascending. -/
def openSegments : List (Nat × Bytes) → Index × Nat → Nat × Nat →
    Except WalError ((Index × Nat) × Nat × Nat)
  | [], st, tail => .ok (st, tail)
  | (seq, file) :: rest, st, _ =>
    match validateHeader file with
    | .error e => .error e
    | .ok () =>
      match rebuildSegmentIndex crc file with
      | .error e => .error e
      | .ok (segRecords, _, endOffset) =>
        openSegments rest (segRecords.foldl (indexRecord seq) st) (seq, endOffset)

/-- `open_with_config`. The tail segment is reopened at the end of its last
whole record; what the file holds behind that stays where it is. -/
def openWithConfig (config : WalConfig) (path : WalPath) : Except WalError Opened :=
  if config.channelCapacity = 0 then
    .error (.invalidConfig "channel_capacity must be greater than 0")
  else if config.segmentBytes < headerLen + recordHeaderLen then
    .error (.invalidConfig "segment_bytes too small to hold one record")
  else
    match path with
    | .file display =>
      .error (.invalidConfig (display ++ " is a file; segmented WAL expects a directory. " ++
        "Drain old single-file WALs before upgrading."))
    | .directory dir =>
      -- a new log: segment 1, header only
      if dir.files.isEmpty then
        .ok ⟨dir.insert 1 segmentHeader, ∅, 1, 1, headerLen⟩
      else
        (openSegments crc dir.files (∅, 1) (0, headerLen)).map fun out =>
          ⟨dir, out.1.1, out.1.2, out.2.1, out.2.2⟩

/-! ## Iterating -/

/-- The indexed location of the smallest id that is at least `fromId`. The
source sorts the matching entries by id and takes the first. -/
def firstFrom (index : Index) (fromId : Nat) : Option (Nat × RecordLocation) :=
  ((index.entries.filter fun e => fromId ≤ e.1).argmin fun e => e.1).map fun e => (e.1, e.2)

/-- The segment loop of `iterate_from`. -/
def walkSegments (startSeq startOffset minId : Nat) :
    List (Nat × Bytes) → Except WalError (List WalRecord)
  | [] => .ok []
  | (seq, file) :: rest =>
    let start := if seq = startSeq then startOffset else headerLen
    match scanRecords crc (file.drop start) start with
    | .error e => .error e
    | .ok (found, _) =>
      (walkSegments startSeq startOffset minId rest).map fun more =>
        (found.map Prod.fst).filter (fun r => minId ≤ r.id) ++ more

def iterateFrom (index : Index) (dir : Dir Bytes) (fromId : Nat) :
    Except WalError (List WalRecord) :=
  match firstFrom index fromId with
  | none => .ok []
  | some (minId, loc) =>
    walkSegments crc loc.segmentSeq loc.offsetInSegment minId
      (dir.files.filter fun p => loc.segmentSeq ≤ p.1)

/-- The location holds the record's whole header and payload. -/
def HeldAt (dir : Dir Bytes) (r : WalRecord) (loc : RecordLocation) : Prop :=
  ∃ file, dir.find? loc.segmentSeq = some file ∧
    encodeRecord crc r <+: file.drop loc.offsetInSegment

/-- The index leads to the record. -/
def Indexed (index : Index) (dir : Dir Bytes) (r : WalRecord) : Prop :=
  ∃ loc, index.lookup r.id = some loc ∧ HeldAt crc dir r loc

variable {crc}

/-! ## What the walk finds -/

variable {files : List (Nat × Bytes)} {out : (Index × Nat) × Nat × Nat} {config : WalConfig}
  {st : Index × Nat} {path : WalPath}

theorem walkSegments_cons_ok {startSeq startOffset minId : Nat} {file : Nat × Bytes}
    {out : List WalRecord}
    (h : walkSegments crc startSeq startOffset minId (file :: files) = .ok out) :
    ∃ found stop more,
      scanRecords crc (file.2.drop (if file.1 = startSeq then startOffset else headerLen))
        (if file.1 = startSeq then startOffset else headerLen) = .ok (found, stop) ∧
      walkSegments crc startSeq startOffset minId files = .ok more ∧
      out = (found.map Prod.fst).filter (fun r => minId ≤ r.id) ++ more := by
  obtain ⟨seq, bytes⟩ := file
  unfold walkSegments at h
  dsimp only at h ⊢
  cases hscan : scanRecords crc (bytes.drop (if seq = startSeq then startOffset else headerLen))
      (if seq = startSeq then startOffset else headerLen) with
  | error e =>
    rw [hscan] at h
    cases h
  | ok p =>
    rw [hscan] at h
    cases hmore : walkSegments crc startSeq startOffset minId files with
    | error e =>
      rw [hmore] at h
      cases h
    | ok more =>
      rw [hmore] at h
      cases h
      exact ⟨p.1, p.2, more, rfl, rfl, rfl⟩

/-- The walk leaves out what lies below its start. -/
theorem le_id_of_walkSegments {startSeq startOffset minId : Nat} {out : List WalRecord}
    (h : walkSegments crc startSeq startOffset minId files = .ok out) {r : WalRecord}
    (hr : r ∈ out) : minId ≤ r.id := by
  induction files generalizing out with
  | nil =>
    cases h
    exact absurd hr List.not_mem_nil
  | cons file files ih =>
    obtain ⟨found, stop, more, -, hmore, rfl⟩ := walkSegments_cons_ok h
    rcases List.mem_append.mp hr with hr | hr
    · exact of_decide_eq_true (List.mem_filter.mp hr).2
    · exact ih hmore hr

/-! ## Where the writer starts -/

theorem rebuildSegmentIndex_scan {file : Bytes} {out : List (Nat × Nat) × Nat × Nat}
    (h : rebuildSegmentIndex crc file = .ok out) :
    ∃ found, scanRecords crc (file.drop headerLen) headerLen = .ok (found, out.2.2) ∧
      out.1 = found.map fun p => (p.1.id, p.2) := by
  unfold rebuildSegmentIndex at h
  cases hscan : scanRecords crc (file.drop headerLen) headerLen with
  | error e => rw [hscan] at h; cases h
  | ok found => rw [hscan] at h; cases h; exact ⟨found.1, rfl, rfl⟩

theorem scanRecords_stop_le {file : Bytes} {found : List (WalRecord × Nat)} {stop : Nat}
    (hlen : headerLen ≤ file.length)
    (h : scanRecords crc (file.drop headerLen) headerLen = .ok (found, stop)) :
    stop ≤ file.length := by
  obtain ⟨rs, rest, hfile, -, -, hstop, -⟩ := scanRecords_ok h
  have := congrArg List.length hfile
  simp only [List.length_drop, List.length_append, encodeRecords_length] at this
  omega

variable {tail : Nat × Nat} {o : Opened}

/-- One file of the walk. -/
theorem openSegments_cons_ok {p : Nat × Bytes}
    (h : openSegments crc (p :: files) st tail = .ok out) :
    headerLen ≤ p.2.length ∧ ∃ found stop,
      scanRecords crc (p.2.drop headerLen) headerLen = .ok (found, stop) ∧
      openSegments crc files ((found.map fun q => (q.1.id, q.2)).foldl (indexRecord p.1) st)
        (p.1, stop) = .ok out := by
  simp only [openSegments] at h
  split at h
  · cases h
  · rename_i hheader
    split at h
    · cases h
    · rename_i hindex
      obtain ⟨found, hscan, rfl⟩ := rebuildSegmentIndex_scan hindex
      exact ⟨validateHeader_ok_length hheader, found, _, hscan, h⟩

/-- The walk ends where the scan of the last file does. -/
theorem openSegments_tail {front : List (Nat × Bytes)} {seq : Nat} {bytes : Bytes}
    (h : openSegments crc (front ++ [(seq, bytes)]) st tail = .ok out) :
    out.2.1 = seq ∧ headerLen ≤ bytes.length ∧
      ∃ found, scanRecords crc (bytes.drop headerLen) headerLen = .ok (found, out.2.2) := by
  induction front generalizing st tail with
  | nil =>
    obtain ⟨hlen, found, stop, hscan, hrest⟩ := openSegments_cons_ok h
    cases hrest
    exact ⟨rfl, hlen, found, hscan⟩
  | cons p front ih =>
    obtain ⟨-, _, _, -, hrest⟩ := openSegments_cons_ok h
    exact ih hrest

/-- Opening succeeds with a new log, or with what the walk over an old one finds. -/
theorem openWithConfig_ok (h : openWithConfig crc config path = .ok o) :
    ∃ dir, path = .directory dir ∧
      (dir.files = [] ∧ o = ⟨dir.insert 1 segmentHeader, ∅, 1, 1, headerLen⟩ ∨
        dir.files ≠ [] ∧ ∃ out, openSegments crc dir.files (∅, 1) (0, headerLen) = .ok out ∧
          o = ⟨dir, out.1.1, out.1.2, out.2.1, out.2.2⟩) := by
  unfold openWithConfig at h
  split at h
  · cases h
  split at h
  · cases h
  split at h
  · cases h
  rename_i dir
  refine ⟨dir, rfl, ?_⟩
  split at h
  · rename_i hempty
    cases h
    exact .inl ⟨List.isEmpty_iff.mp hempty, rfl⟩
  · rename_i hne
    cases hopen : openSegments crc dir.files (∅, 1) (0, headerLen) with
    | error e => rw [hopen] at h; cases h
    | ok out =>
      rw [hopen] at h
      cases h
      exact .inr ⟨fun hnil => hne (List.isEmpty_iff.mpr hnil), out, rfl, rfl⟩

/-- The writer starts behind the last record of the last file. -/
theorem openWithConfig_cursor (h : openWithConfig crc config path = .ok o) :
    ∃ front bytes found, o.dir.files = front ++ [(o.currentSeq, bytes)] ∧
      headerLen ≤ bytes.length ∧
      scanRecords crc (bytes.drop headerLen) headerLen = .ok (found, o.currentOffset) := by
  obtain ⟨dir, -, ⟨hempty, rfl⟩ | ⟨hne, out, hopen, rfl⟩⟩ := openWithConfig_ok h
  · refine ⟨[], segmentHeader, [], ?_, by simp, scanRecords_nil headerLen⟩
    rw [Dir.insert_files_of_gt (by rw [hempty]; nofun), hempty]
  · obtain ⟨p, hp⟩ : ∃ p, dir.files = dir.files.dropLast ++ [p] :=
      ⟨_, (List.dropLast_append_getLast hne).symm⟩
    rw [hp] at hopen
    obtain ⟨hseq, hlen, found, hscan⟩ := openSegments_tail hopen
    refine ⟨dir.files.dropLast, p.2, found, ?_, hlen, hscan⟩
    show dir.files = dir.files.dropLast ++ [(out.2.1, p.2)]
    rw [hseq]
    exact hp

theorem openWithConfig_tail (h : openWithConfig crc config path = .ok o) :
    ∃ front bytes, o.dir.files = front ++ [(o.currentSeq, bytes)] ∧
      o.currentOffset ≤ bytes.length := by
  obtain ⟨front, bytes, found, hfiles, hlen, hscan⟩ := openWithConfig_cursor h
  exact ⟨front, bytes, hfiles, scanRecords_stop_le hlen hscan⟩

theorem foldl_indexRecord_lt {seq : Nat} {entries : List (Nat × Nat)} (h : st.2 < 2 ^ 64) :
    (entries.foldl (indexRecord seq) st).2 < 2 ^ 64 := by
  induction entries generalizing st with
  | nil => exact h
  | cons e entries ih =>
    refine ih ?_
    simp only [indexRecord]
    split
    · exact Nat.mod_lt _ (by decide)
    · exact h

theorem openSegments_nextId_lt (hst : st.2 < 2 ^ 64)
    (h : openSegments crc files st tail = .ok out) : out.1.2 < 2 ^ 64 := by
  induction files generalizing st tail with
  | nil => cases h; exact hst
  | cons p files ih =>
    obtain ⟨-, _, _, -, hrest⟩ := openSegments_cons_ok h
    exact ih (foldl_indexRecord_lt hst) hrest

theorem openWithConfig_nextId_lt (h : openWithConfig crc config path = .ok o) :
    o.nextId < 2 ^ 64 := by
  obtain ⟨dir, -, ⟨-, rfl⟩ | ⟨-, out, hopen, rfl⟩⟩ := openWithConfig_ok h
  · show 1 < 2 ^ 64
    decide
  · exact openSegments_nextId_lt (by decide) hopen

end Open

end BlipMQ.Wal
