import BlipMQ.Wal.Iterate

/-!
# WAL — appending behind a torn tail

The reopened writer starts behind the last whole record and writes over
the torn one. It does not cut the file, so if what it writes is shorter
than what was there, the rest of the torn record stays behind it and is
what the next `open_with_config` reads on into.
-/

namespace BlipMQ.Wal

/-- A directory as a crash leaves it whose last segment ends in a strict
prefix of a record. -/
structure TornLog (crc : Bytes → UInt32) (dir : Dir Bytes) (front : List StoredSegment)
    (last : StoredSegment) : Prop where
  files : dir.files = (front ++ [last]).map (StoredSegment.file crc)
  whole : ∀ seg ∈ front, seg.rest = []
  torn : TornRecord crc last.rest
  fits : ∀ r ∈ allRecords (front ++ [last]), r.Fits ∧ r.id + 1 < 2 ^ 64
  nodup : ((allRecords (front ++ [last])).map WalRecord.id).Nodup

/-- The records received by this process that are in the segment. -/
def State.recordsIn (s : State) (seq : Nat) : List WalRecord :=
  s.received.filter fun r => (s.index.lookup r.id).map RecordLocation.segmentSeq == some seq

/-- What is left of the torn record is read as whole records, or none, up to
the end of the file, and none of them takes the place of a record of
`kept` in the index. -/
def Harmless (crc : Bytes → UInt32) (leftover : Bytes) (kept : List WalRecord) : Prop :=
  ∃ phantoms rest, leftover = encodeRecords crc phantoms ++ rest ∧
    (∀ p ∈ phantoms, p.Fits) ∧
    (∀ offset, readNextRecordWithOffset crc rest offset = .ok none) ∧
    ∀ r ∈ kept, ∀ p, lastWithId phantoms r.id = some p → p = r

section TornTail

variable {crc : Bytes → UInt32} {config : WalConfig} {dir : Dir Bytes} {o : Opened}
  {front : List StoredSegment} {last : StoredSegment} {synced : Nat → Nat} {as : List Action}
  {s : State}

namespace TornLog

theorem wellFormed (h : TornLog crc dir front last) :
    ∀ seg ∈ front ++ [last], seg.WellFormed crc := by
  intro seg hseg
  refine ⟨fun r hr => (h.fits r (List.mem_flatMap.mpr ⟨seg, hseg, hr⟩)).1, ?_⟩
  rcases List.mem_append.mp hseg with hfront | hlast
  · rw [h.whole seg hfront]
    exact readNext_short (by decide)
  · rw [List.mem_singleton.mp hlast]
    exact readNext_torn h.torn

theorem opened (h : TornLog crc dir front last)
    (hopen : openWithConfig crc config (.directory dir) = .ok o) :
    StoredLog crc o front last := by
  rw [openWithConfig_stored (openWithConfig_valid hopen) h.files h.wellFormed] at hopen
  cases hopen
  exact ⟨h.files, h.wellFormed, rfl, rfl, rfl, rfl⟩

end TornLog

section Layout

variable {origin : Origin} {Base : Bytes → Prop} {L : Layout}

theorem Inv.segmentSeq_of_mem (h : Inv crc origin Base s L)
    (hpc : s.pc.unindexed = ([], [])) (hnd : (L.records.map WalRecord.id).Nodup) {seg : Seg}
    (hseg : seg ∈ L.segs) {r : WalRecord} (hr : r ∈ seg.records) :
    (s.index.lookup r.id).map RecordLocation.segmentSeq = some seg.seq := by
  rw [← located_map_fst seg.base.length seg.records] at hr
  obtain ⟨⟨x, o⟩, hx, rfl⟩ := List.mem_map.mp hr
  rw [h.lookup hnd hseg hx (by rw [hpc]; nofun)]
  rfl

end Layout

/-- The torn segment after the run: new records over the torn one. -/
def tornSegment (last : StoredSegment) (added : List WalRecord) : StoredSegment :=
  ⟨last.seq, last.records ++ added, last.rest.drop (sizeAll added)⟩

/-- Segments listed behind the one that was torn are new. -/
theorem StoredLog.tail_of_gt {L : Layout} (h : StoredLog crc o front last)
    (hi : Inv crc (h.origin synced) (· = segmentHeader) s L) (hrun : s.pc ≠ .stopped) {seg : Seg}
    (hseg : seg ∈ L.segs) (hgt : last.seq < seg.seq) : seg.tail = [] := by
  have htail : seg.tail = (o.fileOf seg.seq).drop seg.stop := hi.tailOk hrun hseg
  have hnew : o.fileOf seg.seq = [] :=
    Opened.fileOf_of_gt (o := o) (by rw [h.files, List.map_append]; rfl) hgt
  rw [htail, hnew, List.drop_nil]

/-- **The directory after a run on a torn log**: the segments before the torn
one as they were, the torn one with the first of the new records written
over its tail, and new segments without anything behind their records. -/
theorem TornLog.run_segments (h : TornLog crc dir front last)
    (hopen : openWithConfig crc config (.directory dir) = .ok o)
    (hrun : run (step crc) (o.start config synced) as = some s)
    (hids : o.nextId + s.taken ≤ 2 ^ 64) (hidle : s.pc = .idle) :
    ∃ later, s.received = s.recordsIn last.seq ++ allRecords later ∧
      s.contents.files = (front ++ tornSegment last (s.recordsIn last.seq) :: later).map
        (StoredSegment.file crc) ∧
      (∀ seg ∈ later, seg.rest = []) ∧
      (∀ r ∈ s.received, r.Fits) ∧
      ((allRecords (front ++ [last]) ++ s.received).map WalRecord.id).Nodup := by
  have hlog := h.opened hopen
  obtain ⟨L, hi⟩ := run_inv (hlog.start_inv (openWithConfig_nextId_lt hopen) config synced) rfl hrun
  obtain ⟨hgoing, hstray, hrecords⟩ := hi.between (.inl hidle)
  have hnd : ((allRecords (front ++ [last]) ++ s.received).map WalRecord.id).Nodup :=
    hi.nodup_ids h.nodup (hlog.id_lt_nextId fun r hr => (h.fits r hr).2) hids
  obtain ⟨tail, later, hsegs, hseq⟩ := hi.disk.kept.segs
  have htail : tail ∈ L.segs := by rw [hsegs]; simp
  have hlater : ∀ seg ∈ later, seg ∈ L.segs := fun seg hseg => by rw [hsegs]; simp [hseg]
  have hsegs' : L.segs = front.map (StoredSegment.toSeg crc synced) ++ tail :: later := hsegs
  -- what the torn segment has gained
  obtain ⟨added, hadded⟩ : ∃ added, tail.records = last.records ++ added := by
    obtain ⟨added, hadded⟩ := hi.disk.grown tail htail
    refine ⟨added, hadded.symm.trans ?_⟩
    rw [hseq]
    show StoredLog.recordsOf (front ++ [last]) last.seq ++ added = _
    rw [StoredLog.recordsOf_of_mem hlog.seqs_sorted (by simp)]
  have hreceived : s.received = added ++ later.flatMap Seg.records := by
    have hsplit : L.records = allRecords (front ++ [last]) ++
        (added ++ later.flatMap Seg.records) := by
      rw [Layout.records, hsegs']
      simp [allRecords, List.flatMap_map, StoredSegment.toSeg, hadded]
    exact List.append_cancel_left (hrecords.symm.trans hsplit)
  have hgt : ∀ seg ∈ later, last.seq < seg.seq := fun seg hseg => by
    have hsorted := hi.segs_sorted
    rw [hsegs', List.pairwise_append] at hsorted
    have hlt := (List.pairwise_cons.mp hsorted.2.1).1 seg hseg
    rwa [hseq] at hlt
  have hin : s.recordsIn last.seq = added := by
    rw [State.recordsIn, hreceived, List.filter_append, List.filter_eq_self.mpr,
      List.filter_eq_nil_iff.mpr, List.append_nil]
    · intro r hr
      obtain ⟨seg, hseg, hr⟩ := List.mem_flatMap.mp hr
      rw [hi.segmentSeq_of_mem (by rw [hidle]; rfl) (hrecords ▸ hnd) (hlater seg hseg) hr]
      simpa using Nat.ne_of_gt (hgt seg hseg)
    · intro r hr
      have hmem : r ∈ tail.records := by rw [hadded]; simp [hr]
      rw [hi.segmentSeq_of_mem (by rw [hidle]; rfl) (hrecords ▸ hnd) htail hmem, hseq]
      exact beq_self_eq_true _
  have htorn : tail.toStored = tornSegment last added := by
    have hold : tail.tail = (o.fileOf tail.seq).drop tail.stop := hi.tailOk hgoing htail
    have hfile : o.fileOf last.seq = (last.file crc).2 :=
      Opened.fileOf_of_mem (p := last.file crc) (by rw [hlog.files]; simp)
    have hstop : tail.stop = last.stop + sizeAll added := by
      rw [Seg.stop, hi.disk.base tail htail, hadded, segmentHeader_length, sizeAll_append,
        StoredSegment.stop, Nat.add_assoc]
    have hseq' : tail.seq = last.seq := hseq
    rw [hseq', hfile, hstop, ← List.drop_drop, StoredSegment.file_drop_stop] at hold
    rw [Seg.toStored, hseq', hadded, hold]
    rfl
  rw [hin]
  refine ⟨later.map Seg.toStored, ?_, ?_, ?_, ?_, hnd⟩
  · rw [hreceived, allRecords, List.flatMap_map]
    rfl
  · rw [hi.contents_files hstray, Layout.stored, hsegs', List.map_append, List.map_cons, htorn,
      List.map_map]
    congr 2
    exact List.map_id front
  · intro seg hseg
    obtain ⟨x, hx, rfl⟩ := List.mem_map.mp hseg
    exact hlog.tail_of_gt hi hgoing (hlater x hx) (hgt x hx)
  · exact fun r hr => hi.requests.fits (mem_requests_of_received hr)

/-! ## The second open -/

/-- A segment whose leftover is read as `phantoms` is one that holds them. -/
theorem tornSegment_file {added phantoms : List WalRecord} {rest : Bytes}
    (hleft : last.rest.drop (sizeAll added) = encodeRecords crc phantoms ++ rest) :
    (tornSegment last added).file crc =
      StoredSegment.file crc ⟨last.seq, last.records ++ added ++ phantoms, rest⟩ := by
  simp [tornSegment, StoredSegment.file, hleft]

/-- Opening succeeds only if the leftover is read to its end. -/
theorem leftover_of_open {later : List StoredSegment} {added : List WalRecord}
    (hwf : ∀ seg ∈ front ++ later, seg.WellFormed crc)
    (hfits : ∀ r ∈ last.records ++ added, r.Fits) {dir' : Dir Bytes} {o' : Opened}
    (hfiles : dir'.files =
      (front ++ tornSegment last added :: later).map (StoredSegment.file crc))
    (hopen : openWithConfig crc config (.directory dir') = .ok o') :
    ∃ phantoms rest, last.rest.drop (sizeAll added) = encodeRecords crc phantoms ++ rest ∧
      (∀ p ∈ phantoms, p.Fits) ∧
      ∀ offset, readNextRecordWithOffset crc rest offset = .ok none := by
  rw [openWithConfig_directory (openWithConfig_valid hopen) (by rw [hfiles]; simp), hfiles,
    List.map_append, List.map_cons] at hopen
  have hdamaged := openSegments_damaged_iff hwf hfits last.seq
    (last.rest.drop (sizeAll added)) (∅, 1) (0, headerLen)
  cases hscan : scanRecords crc (last.rest.drop (sizeAll added))
      (headerLen + sizeAll (last.records ++ added)) with
  | error e =>
    obtain ⟨e', he'⟩ := hdamaged.mpr ⟨e, hscan⟩
    rw [StoredSegment.file, tornSegment, he'] at hopen
    cases hopen
  | ok out =>
    obtain ⟨phantoms, rest, hleft, hphantoms, -, -, hends⟩ := scanRecords_ok hscan
    exact ⟨phantoms, rest, hleft, hphantoms, readNext_none_offset hends⟩

/-- With a leftover that is read to its end, the index leads to all records
exactly if no phantom comes between an id and its record. -/
theorem indexed_with_phantoms_iff {kept phantoms later : List WalRecord}
    (hnd : ((kept ++ later).map WalRecord.id).Nodup) :
    (∀ r ∈ kept ++ later, lastWithId (kept ++ phantoms ++ later) r.id = some r) ↔
      ∀ r ∈ kept, ∀ p, lastWithId phantoms r.id = some p → p = r := by
  rw [List.map_append, List.nodup_append] at hnd
  obtain ⟨hkept, hlater, hdisj⟩ := hnd
  have hcut : ∀ r ∈ kept, lastWithId (kept ++ phantoms ++ later) r.id =
      (lastWithId phantoms r.id).or (some r) := fun r hr => by
    have hnot : lastWithId later r.id = none := lastWithId_eq_none.mpr fun hmem =>
      hdisj r.id (List.mem_map_of_mem hr) r.id hmem rfl
    rw [lastWithId_append, hnot, Option.none_or, lastWithId_append,
      lastWithId_of_nodup hkept hr]
  constructor
  · intro h r hr p hp
    have := h r (List.mem_append_left _ hr)
    rw [hcut r hr, hp] at this
    exact Option.some.inj this
  · intro h r hr
    rcases List.mem_append.mp hr with hr | hr
    · rw [hcut r hr]
      cases hp : lastWithId phantoms r.id with
      | none => rfl
      | some p => rw [h r hr p hp]; rfl
    · rw [lastWithId_append, lastWithId_of_nodup hlater hr]
      rfl

/-- The records of the log and the files that hold them are read back. -/
def ReadsBack (crc : Bytes → UInt32) (config : WalConfig) (dir : Dir Bytes)
    (rs : List WalRecord) : Prop :=
  ∃ o, openWithConfig crc config (.directory dir) = .ok o ∧
    ∀ r ∈ rs, Indexed crc o.index dir r ∧
      ∃ out, iterateFrom crc o.index dir r.id = .ok out ∧ r ∈ out

/-- On stored segments, records are read back exactly if each is the last of its id. -/
theorem readsBack_stored_iff (hconf : config.Valid) {segs : List StoredSegment}
    (hdir : dir.files = segs.map (StoredSegment.file crc))
    (hwf : ∀ seg ∈ segs, seg.WellFormed crc) (hne : segs ≠ []) {rs : List WalRecord}
    (hrs : ∀ r ∈ rs, r ∈ allRecords segs) :
    ReadsBack crc config dir rs ↔ ∀ r ∈ rs, lastWithId (allRecords segs) r.id = some r := by
  obtain ⟨o', hopen', hindex⟩ := openWithConfig_index hconf hdir hwf hne
  constructor
  · rintro ⟨o, hopen, hback⟩ r hr
    obtain rfl : o' = o := by
      rw [hopen'] at hopen
      exact Except.ok.inj hopen
    have hidx := (hback r hr).1
    rw [hindex] at hidx
    exact (indexed_iff_lastWithId hdir hwf (hrs r hr)).mp hidx
  · intro h
    refine ⟨o', hopen', fun r hr => ?_⟩
    have hidx := (indexed_iff_lastWithId hdir hwf (hrs r hr)).mpr (h r hr)
    rw [hindex]
    exact ⟨hidx, mem_iterateFrom_of_indexed hdir hwf (hrs r hr) hidx⟩

/-- **Records appended behind a torn tail survive the next open exactly if
what is left of the torn record is harmless.** The bytes left are those the
records written into the torn segment did not reach. -/
theorem readsBack_after_torn_tail_iff (htorn : TornLog crc dir front last)
    (hopen : openWithConfig crc config (.directory dir) = .ok o)
    (hrun : run (step crc) (o.start config synced) as = some s)
    (hids : o.nextId + s.taken ≤ 2 ^ 64) (hidle : s.pc = .idle) :
    ReadsBack crc config s.contents (allRecords (front ++ [last]) ++ s.received) ↔
      Harmless crc (last.rest.drop (sizeAll (s.recordsIn last.seq)))
        (allRecords (front ++ [last]) ++ s.recordsIn last.seq) := by
  obtain ⟨later, hreceived, hfiles, hwhole, hfits, hnd⟩ :=
    htorn.run_segments hopen hrun hids hidle
  generalize s.recordsIn last.seq = added at hreceived hfiles ⊢
  have hwf : ∀ seg ∈ front ++ later, seg.WellFormed crc := by
    intro seg hseg
    rcases List.mem_append.mp hseg with hfront | hlater
    · exact htorn.wellFormed seg (List.mem_append_left _ hfront)
    · refine ⟨fun r hr => hfits r ?_, ?_⟩
      · rw [hreceived]
        exact List.mem_append_right _ (List.mem_flatMap.mpr ⟨seg, hlater, hr⟩)
      · rw [hwhole seg hlater]
        exact readNext_short (by decide)
  have hkept : ∀ r ∈ last.records ++ added, r.Fits := by
    intro r hr
    rcases List.mem_append.mp hr with hr | hr
    · exact (htorn.wellFormed last (by simp)).fits r hr
    · exact hfits r (by rw [hreceived]; exact List.mem_append_left _ hr)
  -- once the leftover is known to be read as `phantoms`, they are stored records too
  have key : ∀ phantoms rest, last.rest.drop (sizeAll added) = encodeRecords crc phantoms ++ rest →
      (∀ p ∈ phantoms, p.Fits) →
      (∀ offset, readNextRecordWithOffset crc rest offset = .ok none) →
      (ReadsBack crc config s.contents (allRecords (front ++ [last]) ++ s.received) ↔
        ∀ r ∈ allRecords (front ++ [last]) ++ added, ∀ p,
          lastWithId phantoms r.id = some p → p = r) := by
    intro phantoms rest hleft hphantoms hends
    have hall : allRecords (front ++ ⟨last.seq, last.records ++ added ++ phantoms, rest⟩ :: later) =
        allRecords (front ++ [last]) ++ added ++ phantoms ++ allRecords later := by
      simp [allRecords]
    rw [hreceived, ← List.append_assoc] at hnd ⊢
    rw [List.map_append, List.map_cons, tornSegment_file hleft, ← List.map_cons,
      ← List.map_append] at hfiles
    rw [readsBack_stored_iff (openWithConfig_valid hopen) hfiles ?_ (by simp) ?_, hall,
      indexed_with_phantoms_iff hnd]
    · intro seg hseg
      rw [List.mem_append, List.mem_cons] at hseg
      rcases hseg with hfront | rfl | hlater
      · exact hwf seg (List.mem_append_left _ hfront)
      · refine ⟨fun r hr => ?_, hends⟩
        rcases List.mem_append.mp hr with hr | hr
        · exact hkept r hr
        · exact hphantoms r hr
      · exact hwf seg (List.mem_append_right _ hlater)
    · intro r hr
      rw [hall]
      simp only [List.mem_append] at hr ⊢
      tauto
  constructor
  · intro hback
    obtain ⟨o', hopen', -⟩ := id hback
    obtain ⟨phantoms, rest, hleft, hphantoms, hends⟩ := leftover_of_open hwf hkept hfiles hopen'
    exact ⟨phantoms, rest, hleft, hphantoms, hends,
      (key phantoms rest hleft hphantoms hends).mp hback⟩
  · rintro ⟨phantoms, rest, hleft, hphantoms, hends, hshadow⟩
    exact (key phantoms rest hleft hphantoms hends).mpr hshadow

/-- What a crash left of a record of 100 zero bytes: its header and 40 of them. -/
def tornBytes : Bytes := (encodeRecord Crc32.crc32 ⟨1, List.replicate 100 0⟩).take 56

def tornRecordLog : Dir Bytes := Dir.empty.insert 1 (segmentHeader ++ tornBytes)

def tornOpened : Opened := ⟨tornRecordLog, ∅, 1, 1, headerLen⟩

theorem tornRecordLog_torn : TornLog Crc32.crc32 tornRecordLog [] ⟨1, [], tornBytes⟩ := by
  refine ⟨rfl, nofun, ⟨⟨1, List.replicate 100 0⟩, ⟨by decide, by decide⟩, List.take_prefix _ _, ?_⟩,
    nofun, List.nodup_nil⟩
  decide +kernel

theorem tornRecordLog_opens :
    openWithConfig Crc32.crc32 tinyConfig (.directory tornRecordLog) = .ok tornOpened :=
  openWithConfig_stored ⟨by decide, by decide⟩ tornRecordLog_torn.files
    tornRecordLog_torn.wellFormed

/-- One durable append that is as long as what was torn. -/
def coveringRun : List Action :=
  [.buildRequest (List.replicate 40 9) true, .sendRequest 0, .recv 0, .writeBatch .ok,
    .indexBatch 0, .flushFile .ok]

theorem readsBack_after_torn_tail_iff_covered :
    ∃ s, run (step Crc32.crc32) (tornOpened.start tinyConfig fun _ => headerLen) coveringRun =
        some s ∧
      s.received = [⟨1, List.replicate 40 9⟩] ∧
      ReadsBack Crc32.crc32 tinyConfig s.contents s.received := by
  obtain ⟨s, hs, hids, hpc, hreceived, hin⟩ : ∃ s, run (step Crc32.crc32)
      (tornOpened.start tinyConfig fun _ => headerLen) coveringRun = some s ∧
        tornOpened.nextId + s.taken ≤ 2 ^ 64 ∧ s.pc = .idle ∧
        s.received = [⟨1, List.replicate 40 9⟩] ∧ s.recordsIn 1 = [⟨1, List.replicate 40 9⟩] := by
    decide +kernel
  refine ⟨s, hs, hreceived, ?_⟩
  refine (readsBack_after_torn_tail_iff tornRecordLog_torn tornRecordLog_opens hs hids hpc).mpr ?_
  refine ⟨[], [], ?_, by simp, readNext_short (by decide), by simp [lastWithId]⟩
  rw [hin]
  decide +kernel

/-- A shorter durable append over the torn record, acknowledged, and the next
open fails on the zero bytes it left. -/
theorem torn_tail_reopen_fails :
    ∃ s, run (step Crc32.crc32) (tornOpened.start tinyConfig fun _ => headerLen) oneAppendRun =
        some s ∧
      s.pc = .idle ∧ s.answers = [(⟨⟨1, [7]⟩, true⟩, .ok ())] ∧
      openWithConfig Crc32.crc32 tinyConfig (.directory s.contents) =
        .error (.corruption "CRC mismatch at offset 49: expected 00000000, got 7bd5c66f") := by
  decide +kernel

end TornTail

end BlipMQ.Wal
