import BlipMQ.Wal.Open

/-!
# WAL — directories that hold whole records

The specification side of `open_with_config`: a directory given as the
records of its segments, each followed by bytes in which the reader finds
no further record. Opening such a directory succeeds and its index is
read off the records.
-/

namespace BlipMQ.Wal

structure StoredSegment where
  seq : Nat
  records : List WalRecord
  rest : Bytes

namespace StoredSegment

/-- Offset behind the last record. -/
def stop (seg : StoredSegment) : Nat := headerLen + sizeAll seg.records

def entries (seg : StoredSegment) : List (Nat × RecordLocation) :=
  locationsFrom seg.seq headerLen seg.records

def file (crc : Bytes → UInt32) (seg : StoredSegment) : Nat × Bytes :=
  (seg.seq, segmentHeader ++ (encodeRecords crc seg.records ++ seg.rest))

/-- The records fit their headers, and the reader stops behind them. -/
structure WellFormed (crc : Bytes → UInt32) (seg : StoredSegment) : Prop where
  fits : ∀ r ∈ seg.records, r.Fits
  ends : ∀ offset, readNextRecordWithOffset crc seg.rest offset = .ok none

end StoredSegment

theorem seqs_of_files {crc : Bytes → UInt32} {dir : Dir Bytes} {segs : List StoredSegment}
    (h : dir.files = segs.map (StoredSegment.file crc)) :
    dir.seqs = segs.map StoredSegment.seq := by
  rw [Dir.seqs, h, List.map_map]
  rfl

def allRecords (segs : List StoredSegment) : List WalRecord :=
  segs.flatMap StoredSegment.records

def allEntries (segs : List StoredSegment) : List (Nat × RecordLocation) :=
  segs.flatMap StoredSegment.entries

/-- `next_id` after the records with these ids. -/
def nextIdAfter (nextId : Nat) (ids : List Nat) : Nat :=
  ids.foldl (fun n id => if n ≤ id then (id + 1) % 2 ^ 64 else n) nextId

theorem allEntries_ids (segs : List StoredSegment) :
    (allEntries segs).map Prod.fst = (allRecords segs).map WalRecord.id := by
  simp only [allEntries, allRecords, List.map_flatMap]
  exact List.flatMap_congr fun seg _ => locationsFrom_ids _ _ _

/-- A record that is stored has an entry in the index. -/
theorem exists_lookup_allEntries {segs : List StoredSegment} {r : WalRecord}
    (h : r ∈ allRecords segs) :
    ∃ loc, (r.id, loc) ∈ allEntries segs ∧
      (insertAll ∅ (allEntries segs)).lookup r.id = some loc := by
  refine exists_lookup_insertAll ?_ ∅
  rw [allEntries_ids]
  exact List.mem_map_of_mem h

/-- Without the id `2 ^ 64 - 1`, the next id is above all others. -/
theorem lt_nextIdAfter {n : Nat} {ids : List Nat} (h : ∀ id ∈ ids, id + 1 < 2 ^ 64) :
    n ≤ nextIdAfter n ids ∧ ∀ id ∈ ids, id < nextIdAfter n ids := by
  induction ids generalizing n with
  | nil => exact ⟨Nat.le_refl _, nofun⟩
  | cons a ids ih =>
    have ha : (a + 1) % 2 ^ 64 = a + 1 := Nat.mod_eq_of_lt (h a (by simp))
    obtain ⟨hle, hlt⟩ := @ih (if n ≤ a then (a + 1) % 2 ^ 64 else n)
      (fun id hid => h id (by simp [hid]))
    have hn : n ≤ (if n ≤ a then (a + 1) % 2 ^ 64 else n) ∧
        a < (if n ≤ a then (a + 1) % 2 ^ 64 else n) := by
      rw [ha]
      split <;> omega
    refine ⟨Nat.le_trans hn.1 hle, ?_⟩
    intro id hid
    rcases List.mem_cons.mp hid with rfl | hid
    · exact Nat.lt_of_lt_of_le hn.2 hle
    · exact hlt id hid

section Open

variable {crc : Bytes → UInt32}

theorem foldl_indexRecord (seq offset : Nat) (rs : List WalRecord) (st : Index × Nat) :
    ((located offset rs).map fun p => (p.1.id, p.2)).foldl (indexRecord seq) st =
      (insertAll st.1 (locationsFrom seq offset rs), nextIdAfter st.2 (rs.map WalRecord.id)) := by
  induction rs generalizing offset st with
  | nil => rfl
  | cons r rs ih =>
    simp only [located, List.map_cons, List.foldl_cons, ih]
    rfl

variable {seg : StoredSegment} {rs : List WalRecord} {id : Nat}

theorem rebuildSegmentIndex_stored (h : seg.WellFormed crc) :
    ∃ next, rebuildSegmentIndex crc (seg.file crc).2 =
      .ok ((located headerLen seg.records).map fun p => (p.1.id, p.2), next, seg.stop) := by
  have hdrop : (seg.file crc).2.drop headerLen = encodeRecords crc seg.records ++ seg.rest := by
    rw [StoredSegment.file, ← segmentHeader_length, List.drop_left]
  rw [rebuildSegmentIndex, hdrop, scanRecords_encodeRecords h.fits (h.ends _)]
  exact ⟨_, rfl⟩

variable {segs : List StoredSegment} {dir : Dir Bytes} {config : WalConfig} {r : WalRecord}

/-- The walk over stored segments collects their entries. -/
theorem openSegments_stored (h : ∀ seg ∈ segs, seg.WellFormed crc) (st : Index × Nat)
    (tail : Nat × Nat) :
    openSegments crc (segs.map (StoredSegment.file crc)) st tail =
      .ok ((insertAll st.1 (allEntries segs),
        nextIdAfter st.2 ((allRecords segs).map WalRecord.id)),
        (segs.getLast?.map fun seg => (seg.seq, seg.stop)).getD tail) := by
  induction segs generalizing st tail with
  | nil => rfl
  | cons seg segs ih =>
    obtain ⟨next, hindex⟩ := rebuildSegmentIndex_stored (h seg (by simp))
    have hheader : validateHeader (seg.file crc).2 = .ok () := validateHeader_header _
    have hcons : openSegments crc ((seg :: segs).map (StoredSegment.file crc)) st tail =
        openSegments crc (segs.map (StoredSegment.file crc))
          (insertAll st.1 seg.entries, nextIdAfter st.2 (seg.records.map WalRecord.id))
          (seg.seq, seg.stop) := by
      rw [List.map_cons, show seg.file crc = ((seg.file crc).1, (seg.file crc).2) from rfl,
        openSegments, hheader, hindex]
      dsimp only
      rw [foldl_indexRecord]
      rfl
    rw [hcons, ih fun x hx => h x (by simp [hx])]
    simp only [allEntries, allRecords, List.flatMap_cons, List.map_append, insertAll_append,
      nextIdAfter, List.foldl_append, List.getLast?_cons, Option.map_some, Option.getD_some]
    cases segs.getLast? <;> rfl

/-- A walk that has passed some segments goes on with the others. -/
theorem openSegments_append (as bs : List (Nat × Bytes)) (st : Index × Nat) (tail : Nat × Nat) :
    openSegments crc (as ++ bs) st tail =
      match openSegments crc as st tail with
      | .error e => .error e
      | .ok (st', tail') => openSegments crc bs st' tail' := by
  induction as generalizing st tail with
  | nil => rfl
  | cons a as ih =>
    simp only [List.cons_append, openSegments]
    cases validateHeader a.2 with
    | error e => rfl
    | ok u =>
      dsimp only
      cases rebuildSegmentIndex crc a.2 with
      | error e => rfl
      | ok out => exact ih _ _

/-- Opening fails on a segment exactly if the walk over its records does. -/
theorem openSegments_damaged_iff {as bs : List StoredSegment}
    (hwf : ∀ seg ∈ as ++ bs, seg.WellFormed crc) {front : List WalRecord}
    (hfits : ∀ r ∈ front, r.Fits) (seq : Nat) (bytes : Bytes) (st : Index × Nat)
    (tail : Nat × Nat) :
    (∃ e, openSegments crc (as.map (StoredSegment.file crc) ++
        (seq, segmentHeader ++ (encodeRecords crc front ++ bytes)) ::
          bs.map (StoredSegment.file crc)) st tail = .error e) ↔
      ∃ e, scanRecords crc bytes (headerLen + sizeAll front) = .error e := by
  have hdrop : (segmentHeader ++ (encodeRecords crc front ++ bytes)).drop headerLen =
      encodeRecords crc front ++ bytes := by
    rw [← segmentHeader_length, List.drop_left]
  rw [openSegments_append, openSegments_stored fun x hx => hwf x (List.mem_append_left _ hx)]
  dsimp only
  rw [openSegments, validateHeader_header, rebuildSegmentIndex, hdrop, scanRecords_append hfits]
  cases scanRecords crc bytes (headerLen + sizeAll front) with
  | error e => exact ⟨fun _ => ⟨e, rfl⟩, fun _ => ⟨e, rfl⟩⟩
  | ok out =>
    simp only [Except.map]
    rw [openSegments_stored fun x hx => hwf x (List.mem_append_right _ hx)]
    constructor
    · rintro ⟨e, he⟩
      cases he
    · rintro ⟨e, he⟩
      cases he

/-- Every file was scanned. -/
theorem openSegments_scanned {files : List (Nat × Bytes)} {st : Index × Nat} {tail : Nat × Nat}
    {out : (Index × Nat) × Nat × Nat} (h : openSegments crc files st tail = .ok out) :
    ∀ p ∈ files, headerLen ≤ p.2.length ∧
      ∃ found stop, scanRecords crc (p.2.drop headerLen) headerLen = .ok (found, stop) := by
  induction files generalizing st tail with
  | nil => nofun
  | cons a files ih =>
    obtain ⟨hlen, found, stop, hscan, hrest⟩ := openSegments_cons_ok h
    exact List.forall_mem_cons.mpr ⟨⟨hlen, found, stop, hscan⟩, ih hrest⟩

/-! ## Opening -/

/-- The two checks `open_with_config` makes on its configuration. -/
structure WalConfig.Valid (config : WalConfig) : Prop where
  capacity : 0 < config.channelCapacity
  segment : headerLen + recordHeaderLen ≤ config.segmentBytes

theorem openWithConfig_valid {path : WalPath} {o : Opened}
    (h : openWithConfig crc config path = .ok o) : config.Valid := by
  unfold openWithConfig at h
  split at h
  · cases h
  · split at h
    · cases h
    · rename_i hcap hseg
      exact ⟨by omega, by omega⟩

theorem openWithConfig_directory (hconf : config.Valid) (hne : dir.files ≠ []) :
    openWithConfig crc config (.directory dir) =
      (openSegments crc dir.files (∅, 1) (0, headerLen)).map fun out =>
        ⟨dir, out.1.1, out.1.2, out.2.1, out.2.2⟩ := by
  have hcap : ¬ config.channelCapacity = 0 := Nat.ne_of_gt hconf.capacity
  have hseg : ¬ config.segmentBytes < headerLen + recordHeaderLen := Nat.not_lt.mpr hconf.segment
  have hempty : ¬ dir.files.isEmpty = true := by simpa using hne
  simp only [openWithConfig, if_neg hcap, if_neg hseg, if_neg hempty]

/-- **A directory of whole records opens**, and the index is that of its records. -/
theorem openWithConfig_stored (hconf : config.Valid) {front : List StoredSegment}
    {last : StoredSegment} (hdir : dir.files = (front ++ [last]).map (StoredSegment.file crc))
    (hwf : ∀ seg ∈ front ++ [last], seg.WellFormed crc) :
    openWithConfig crc config (.directory dir) =
      .ok ⟨dir, insertAll ∅ (allEntries (front ++ [last])),
        nextIdAfter 1 ((allRecords (front ++ [last])).map WalRecord.id), last.seq, last.stop⟩ := by
  rw [openWithConfig_directory hconf (by rw [hdir]; simp), hdir, openSegments_stored hwf]
  simp [Except.map]

theorem openWithConfig_index (hconf : config.Valid)
    (hdir : dir.files = segs.map (StoredSegment.file crc))
    (hwf : ∀ seg ∈ segs, seg.WellFormed crc) (hne : segs ≠ []) :
    ∃ o, openWithConfig crc config (.directory dir) = .ok o ∧
      o.index = insertAll ∅ (allEntries segs) := by
  rw [openWithConfig_directory hconf (by rw [hdir]; simpa using hne), hdir,
    openSegments_stored hwf]
  exact ⟨_, rfl, rfl⟩

/-! ## The index of stored records -/

theorem StoredSegment.heldAt (hfile : seg.file crc ∈ dir.files) {o : Nat}
    (hr : (r, o) ∈ located headerLen seg.records) : HeldAt crc dir r ⟨seg.seq, o⟩ := by
  refine ⟨(seg.file crc).2, Dir.find?_eq_some.mpr hfile, ?_⟩
  obtain ⟨front, back, hrec, rfl⟩ := mem_located.mp hr
  have hsplit : (seg.file crc).2 = (segmentHeader ++ encodeRecords crc front) ++
      (encodeRecord crc r ++ (encodeRecords crc back ++ seg.rest)) := by
    simp [StoredSegment.file, hrec]
  have hlen : (segmentHeader ++ encodeRecords crc front).length = headerLen + sizeAll front := by
    simp
  rw [hsplit]
  show _ <+: List.drop (headerLen + sizeAll front) _
  rw [← hlen, List.drop_left]
  exact List.prefix_append _ _

theorem mem_allEntries {loc : RecordLocation} :
    (id, loc) ∈ allEntries segs ↔ ∃ seg ∈ segs, ∃ r, r.id = id ∧
      loc.segmentSeq = seg.seq ∧ (r, loc.offsetInSegment) ∈ located headerLen seg.records := by
  simp only [allEntries, List.mem_flatMap, StoredSegment.entries, locationsFrom, List.mem_map]
  constructor
  · rintro ⟨seg, hseg, ⟨r, o⟩, hr, heq⟩
    cases heq
    exact ⟨seg, hseg, r, rfl, rfl, hr⟩
  · rintro ⟨seg, hseg, r, rfl, hseq, hr⟩
    refine ⟨seg, hseg, (r, loc.offsetInSegment), hr, ?_⟩
    rw [← hseq]

theorem mem_allRecords_of_located (hseg : seg ∈ segs) {o : Nat}
    (hr : (r, o) ∈ located headerLen seg.records) : r ∈ allRecords segs := by
  refine List.mem_flatMap.mpr ⟨seg, hseg, ?_⟩
  rw [← located_map_fst headerLen seg.records]
  exact List.mem_map_of_mem (f := Prod.fst) hr

/-- Two records that stand at one place are the same. -/
theorem HeldAt.unique {x : WalRecord} {loc : RecordLocation} (hr : HeldAt crc dir r loc)
    (hx : HeldAt crc dir x loc) (hfr : r.Fits) (hfx : x.Fits) : r = x := by
  obtain ⟨file, hfile, rest, hrest⟩ := hr
  obtain ⟨file', hfile', rest', hrest'⟩ := hx
  obtain rfl : file = file' := Option.some.inj (hfile.symm.trans hfile')
  have hread := @readNext_encodeRecord crc r hfr rest 0
  rw [hrest, ← hrest', readNext_encodeRecord hfx] at hread
  cases r; cases x
  simp only [Except.ok.injEq, Option.some.injEq, Prod.mk.injEq] at hread
  rw [hread.1, hread.2.1]

/-- Of the records with one id, the one that comes last in the log. -/
def lastWithId (rs : List WalRecord) (id : Nat) : Option WalRecord :=
  rs.reverse.find? fun r => r.id == id

theorem lastWithId_append (rs ts : List WalRecord) (id : Nat) :
    lastWithId (rs ++ ts) id = (lastWithId ts id).or (lastWithId rs id) := by
  rw [lastWithId, List.reverse_append, List.find?_append]
  rfl

theorem lastWithId_eq_none : lastWithId rs id = none ↔ id ∉ rs.map WalRecord.id := by
  simp [lastWithId, List.find?_eq_none]

theorem lastWithId_some {p : WalRecord} (h : lastWithId rs id = some p) :
    p.id = id ∧ ∃ before after, rs = before ++ p :: after ∧ id ∉ after.map WalRecord.id := by
  obtain ⟨hid, as, bs, hsplit, hnot⟩ := List.find?_eq_some_iff_append.mp h
  refine ⟨by simpa using hid, bs.reverse, as.reverse, ?_, ?_⟩
  · rw [← List.reverse_reverse rs, hsplit]
    simp
  · intro hmem
    obtain ⟨x, hx, hxid⟩ := List.mem_map.mp hmem
    have := hnot x (List.mem_reverse.mp hx)
    simp [hxid] at this

theorem lastWithId_of_nodup (hnd : (rs.map WalRecord.id).Nodup) (hr : r ∈ rs) :
    lastWithId rs r.id = some r := by
  cases hlast : lastWithId rs r.id with
  | none => exact absurd (List.mem_map_of_mem hr) (lastWithId_eq_none.mp hlast)
  | some p =>
    obtain ⟨hid, before, after, hsplit, -⟩ := lastWithId_some hlast
    have hp : p ∈ rs := by rw [hsplit]; simp
    rw [List.inj_on_of_nodup_map hnd hp hr hid]

/-- Every record with the location it has. -/
def allLocated (segs : List StoredSegment) : List (WalRecord × RecordLocation) :=
  segs.flatMap fun seg => (located headerLen seg.records).map fun p => (p.1, ⟨seg.seq, p.2⟩)

theorem allLocated_records (segs : List StoredSegment) :
    (allLocated segs).map Prod.fst = allRecords segs := by
  rw [allLocated, allRecords, List.map_flatMap]
  refine List.flatMap_congr fun seg _ => ?_
  rw [List.map_map]
  exact located_map_fst headerLen seg.records

theorem allLocated_entries (segs : List StoredSegment) :
    (allLocated segs).map (fun p => (p.1.id, p.2)) = allEntries segs := by
  rw [allLocated, allEntries, List.map_flatMap]
  refine List.flatMap_congr fun seg _ => ?_
  rw [List.map_map]
  rfl

/-- The records of a segment carry its number. -/
theorem allLocated_filter (segs : List StoredSegment) (p : Nat → Bool) :
    (allLocated segs).filter (fun x => p x.2.segmentSeq) =
      allLocated (segs.filter fun seg => p seg.seq) := by
  induction segs with
  | nil => rfl
  | cons seg segs ih =>
    have hseg : ∀ x ∈ allLocated [seg], x.2.segmentSeq = seg.seq := by
      intro x hx
      rw [allLocated, List.flatMap_singleton] at hx
      obtain ⟨y, -, rfl⟩ := List.mem_map.mp hx
      rfl
    have hcons : ∀ xs, allLocated (seg :: xs) = allLocated [seg] ++ allLocated xs := by
      simp [allLocated]
    rw [hcons, List.filter_append, ih]
    cases hp : p seg.seq with
    | true =>
      rw [List.filter_cons_of_pos (p := fun seg : StoredSegment => p seg.seq) hp,
        hcons (segs.filter _), List.filter_eq_self.mpr fun x hx => by rw [hseg x hx, hp]]
    | false =>
      rw [List.filter_cons_of_neg (p := fun seg : StoredSegment => p seg.seq) (by simp [hp]),
        List.filter_eq_nil_iff.mpr fun x hx => by simp [hseg x hx, hp], List.nil_append]

theorem allEntries_filter (segs : List StoredSegment) (p : Nat → Bool) :
    (allEntries segs).filter (fun e => p e.2.segmentSeq) =
      allEntries (segs.filter fun seg => p seg.seq) := by
  rw [← allLocated_entries, ← allLocated_entries, ← allLocated_filter, List.filter_map]
  rfl

section Index

variable {dir : Dir Bytes} {segs : List StoredSegment} {r : WalRecord}

theorem heldAt_of_mem_allLocated (hdir : dir.files = segs.map (StoredSegment.file crc))
    {loc : RecordLocation} (h : (r, loc) ∈ allLocated segs) : HeldAt crc dir r loc := by
  obtain ⟨seg, hseg, hr⟩ := List.mem_flatMap.mp h
  obtain ⟨⟨x, o⟩, hx, heq⟩ := List.mem_map.mp hr
  cases heq
  exact StoredSegment.heldAt (by rw [hdir]; exact List.mem_map_of_mem hseg) hx

/-- The index leads to the last record with an id. -/
theorem indexed_lastWithId (hdir : dir.files = segs.map (StoredSegment.file crc)) {id : Nat}
    {p : WalRecord} (hlast : lastWithId (allRecords segs) id = some p) :
    Indexed crc (insertAll ∅ (allEntries segs)) dir p := by
  obtain ⟨rfl, before, after, hsplit, hnot⟩ := lastWithId_some hlast
  rw [← allLocated_records] at hsplit
  obtain ⟨bs, cs, hcut, -, hcs⟩ := List.map_eq_append_iff.mp hsplit
  obtain ⟨⟨x, loc⟩, as, rfl, rfl, rfl⟩ := List.map_eq_cons_iff.mp hcs
  refine ⟨loc, ?_, heldAt_of_mem_allLocated hdir (by rw [hcut]; simp)⟩
  rw [← allLocated_entries, hcut, List.map_append, List.map_cons]
  refine lookup_insertAll ?_
  rw [List.map_map] at hnot ⊢
  exact hnot

/-- **The index leads to a stored record exactly if it is the last with its id.** -/
theorem indexed_iff_lastWithId (hdir : dir.files = segs.map (StoredSegment.file crc))
    (hwf : ∀ seg ∈ segs, seg.WellFormed crc) (hr : r ∈ allRecords segs) :
    Indexed crc (insertAll ∅ (allEntries segs)) dir r ↔
      lastWithId (allRecords segs) r.id = some r := by
  have hfits : ∀ x ∈ allRecords segs, x.Fits := fun x hx => by
    obtain ⟨seg, hseg, hx⟩ := List.mem_flatMap.mp hx
    exact (hwf seg hseg).fits x hx
  constructor
  · rintro ⟨loc, hloc, hheld⟩
    cases hlast : lastWithId (allRecords segs) r.id with
    | none => exact absurd (List.mem_map_of_mem hr) (lastWithId_eq_none.mp hlast)
    | some p =>
      obtain ⟨loc', hloc', hheld'⟩ := indexed_lastWithId hdir hlast
      obtain ⟨hid, before, after, hsplit, -⟩ := lastWithId_some hlast
      obtain rfl : loc = loc' := by
        rw [hid, hloc] at hloc'
        exact Option.some.inj hloc'
      rw [hheld.unique hheld' (hfits r hr) (hfits p (by rw [hsplit]; simp))]
  · exact indexed_lastWithId hdir

/-- With different ids, the index leads to every stored record. -/
theorem indexed_of_stored (hdir : dir.files = segs.map (StoredSegment.file crc))
    (hnd : ((allRecords segs).map WalRecord.id).Nodup) (hr : r ∈ allRecords segs) :
    Indexed crc (insertAll ∅ (allEntries segs)) dir r :=
  indexed_lastWithId hdir (lastWithId_of_nodup hnd hr)

end Index

end Open

end BlipMQ.Wal
