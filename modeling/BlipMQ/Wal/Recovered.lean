import BlipMQ.Wal.Invariant
import BlipMQ.Wal.Stored

/-!
# WAL — running on a log of stored records

A log that was opened on stored segments, seen with all its records: the
layout starts from the segments as they are stored, and every segment file
is a header, its records, and whatever is left behind them.
-/

namespace BlipMQ.Wal

/-- `o` is the result of opening these segments. -/
structure StoredLog (crc : Bytes → UInt32) (o : Opened) (front : List StoredSegment)
    (last : StoredSegment) : Prop where
  files : o.dir.files = (front ++ [last]).map (StoredSegment.file crc)
  wellFormed : ∀ seg ∈ front ++ [last], seg.WellFormed crc
  index : o.index = insertAll ∅ (allEntries (front ++ [last]))
  nextId : o.nextId = nextIdAfter 1 ((allRecords (front ++ [last])).map WalRecord.id)
  currentSeq : o.currentSeq = last.seq
  currentOffset : o.currentOffset = last.stop

variable {crc : Bytes → UInt32} {config : WalConfig} {o : Opened} {front segs : List StoredSegment}
  {last : StoredSegment} {Base : Bytes → Prop}

theorem storedLog_of_open {dir : Dir Bytes} (hdir : dir.files = segs.map (StoredSegment.file crc))
    (hwf : ∀ seg ∈ segs, seg.WellFormed crc)
    (hopen : openWithConfig crc config (.directory dir) = .ok o) :
    ∃ front last, StoredLog crc o front last ∧
      front ++ [last] = if segs = [] then [⟨1, [], []⟩] else segs := by
  have hconf := openWithConfig_valid hopen
  by_cases hnil : segs = []
  · subst hnil
    have hempty : dir.files = [] := hdir
    obtain ⟨dir', heq, ⟨-, rfl⟩ | ⟨hne, -⟩⟩ := openWithConfig_ok hopen <;> cases heq
    swap
    · exact absurd hempty hne
    refine ⟨[], ⟨1, [], []⟩, ⟨?_, ?_, rfl, rfl, rfl, rfl⟩, rfl⟩
    · rw [Dir.insert_files_of_gt (by rw [hempty]; simp), hempty]
      simp [StoredSegment.file]
    · intro seg hseg
      rw [List.mem_singleton.mp hseg]
      exact ⟨by simp, readNext_short (by decide)⟩
  · obtain ⟨last, hlast⟩ : ∃ last, segs = segs.dropLast ++ [last] :=
      ⟨_, (List.dropLast_append_getLast hnil).symm⟩
    rw [hlast] at hdir hwf
    rw [openWithConfig_stored hconf hdir hwf] at hopen
    cases hopen
    exact ⟨segs.dropLast, last, ⟨hdir, hwf, rfl, rfl, rfl, rfl⟩, by rw [if_neg hnil, ← hlast]⟩

/-- A stored segment as part of a layout. -/
def StoredSegment.toSeg (crc : Bytes → UInt32) (synced : Nat → Nat) (seg : StoredSegment) : Seg :=
  ⟨seg.seq, segmentHeader, seg.records, seg.rest,
    min (synced seg.seq) (seg.file crc).2.length⟩

namespace StoredLog

theorem fits (h : StoredLog crc o front last) : ∀ r ∈ allRecords (front ++ [last]), r.Fits := by
  intro r hr
  obtain ⟨seg, hseg, hr⟩ := List.mem_flatMap.mp hr
  exact (h.wellFormed seg hseg).fits r hr

/-- The records of the stored segment of that number. -/
def recordsOf (segs : List StoredSegment) (seq : Nat) : List WalRecord :=
  ((segs.find? fun seg => seg.seq == seq).map StoredSegment.records).getD []

theorem recordsOf_of_mem {segs : List StoredSegment}
    (hsorted : segs.Pairwise fun a b => a.seq < b.seq) {seg : StoredSegment} (hseg : seg ∈ segs) :
    recordsOf segs seg.seq = seg.records := by
  induction segs with
  | nil => cases hseg
  | cons a segs ih =>
    obtain ⟨hlt, hsorted⟩ := List.pairwise_cons.mp hsorted
    rcases List.mem_cons.mp hseg with rfl | hseg
    · simp [recordsOf]
    · have hne : a.seq ≠ seg.seq := Nat.ne_of_lt (hlt seg hseg)
      rw [← ih hsorted hseg]
      simp [recordsOf, hne]

theorem recordsOf_of_gt {segs : List StoredSegment} {seq : Nat} (h : ∀ seg ∈ segs, seg.seq < seq) :
    recordsOf segs seq = [] := by
  have hnone : segs.find? (fun seg => seg.seq == seq) = none :=
    List.find?_eq_none.mpr fun seg hseg => by simpa using Nat.ne_of_lt (h seg hseg)
  rw [recordsOf, hnone]
  rfl

theorem seqs_sorted (h : StoredLog crc o front last) :
    (front ++ [last]).Pairwise fun a b => a.seq < b.seq := by
  have hsorted := o.dir.sorted
  rw [h.files, List.pairwise_map] at hsorted
  exact hsorted

theorem seq_le_last (h : StoredLog crc o front last) :
    ∀ seg ∈ front ++ [last], seg.seq ≤ last.seq := by
  intro seg hseg
  rcases List.mem_append.mp hseg with hseg | hseg
  · exact Nat.le_of_lt
      ((List.pairwise_append.mp h.seqs_sorted).2.2 seg hseg last (List.mem_singleton_self _))
  · rw [List.mem_singleton.mp hseg]

theorem id_lt_nextId (h : StoredLog crc o front last)
    (hids : ∀ r ∈ allRecords (front ++ [last]), r.id + 1 < 2 ^ 64) :
    ∀ r ∈ allRecords (front ++ [last]), r.id < o.nextId := by
  intro r hr
  rw [h.nextId]
  refine (lt_nextIdAfter ?_).2 r.id (List.mem_map_of_mem hr)
  intro id hid
  obtain ⟨x, hx, rfl⟩ := List.mem_map.mp hid
  exact hids x hx

/-- The layout accounts for all stored records, so it starts from an empty index. -/
def origin (h : StoredLog crc o front last) (synced : Nat → Nat) : Origin where
  index := ∅
  records := allRecords (front ++ [last])
  recordsOf := recordsOf (front ++ [last])
  closed := front.map (StoredSegment.toSeg crc synced)
  tailSeq := last.seq
  nextId := o.nextId
  fileOf := o.fileOf
  fits := h.fits

end StoredLog

@[simp] theorem StoredSegment.toSeg_stop (synced : Nat → Nat) (seg : StoredSegment) :
    (seg.toSeg crc synced).stop = seg.stop := rfl

theorem StoredSegment.toSeg_file (synced : Nat → Nat) (seg : StoredSegment) :
    (seg.toSeg crc synced).file crc =
      (seg.seq, ⟨(seg.file crc).2, min (synced seg.seq) (seg.file crc).2.length⟩) := by
  simp [StoredSegment.toSeg, Seg.file, Seg.bytes, StoredSegment.file]

theorem StoredSegment.file_drop_stop (seg : StoredSegment) :
    (seg.file crc).2.drop seg.stop = seg.rest := by
  have hlen : (segmentHeader ++ encodeRecords crc seg.records).length = seg.stop := by
    simp [StoredSegment.stop]
  rw [StoredSegment.file, ← List.append_assoc, ← hlen, List.drop_left]

def storedLayout (crc : Bytes → UInt32) (synced : Nat → Nat) (front : List StoredSegment)
    (last : StoredSegment) : Layout :=
  ⟨front.map (StoredSegment.toSeg crc synced), last.toSeg crc synced, []⟩

theorem storedLayout_segs (synced : Nat → Nat) :
    (storedLayout crc synced front last).segs =
      (front ++ [last]).map (StoredSegment.toSeg crc synced) := by
  simp [Layout.segs, storedLayout]

/-- **Opening stored segments establishes the invariant**, with every record
of the log in the layout and every file starting with the segment header. -/
theorem StoredLog.start_inv (h : StoredLog crc o front last) (hnext : o.nextId < 2 ^ 64)
    (config : WalConfig) (synced : Nat → Nat) :
    Inv crc (h.origin synced) (· = segmentHeader) (o.start config synced)
      (storedLayout crc synced front last) := by
  have hsegs : (storedLayout crc synced front last).segs =
      (front ++ [last]).map (StoredSegment.toSeg crc synced) := storedLayout_segs synced
  have hrecords : (storedLayout crc synced front last).records =
      allRecords (front ++ [last]) := by
    rw [Layout.records, hsegs, List.flatMap_map]
    rfl
  have hentries : (storedLayout crc synced front last).entries =
      allEntries (front ++ [last]) := by
    rw [Layout.entries, hsegs, List.flatMap_map]
    rfl
  have htail : ∀ seg ∈ front ++ [last], TailOk (h.origin synced) (seg.toSeg crc synced) := by
    intro seg hseg
    have hfile : o.fileOf seg.seq = (seg.file crc).2 :=
      Opened.fileOf_of_mem (p := seg.file crc) (by rw [h.files]; exact List.mem_map_of_mem hseg)
    show seg.rest = (o.fileOf seg.seq).drop seg.stop
    rw [hfile, seg.file_drop_stop]
  have hlast := htail last (by simp)
  refine ⟨⟨?_, h.currentSeq, h.currentSeq, h.currentOffset, h.currentOffset, rfl, ?_,
    fun _ => hlast, ?_, ?_, .inl ⟨rfl, rfl⟩, ?_⟩,
    ⟨h.index.trans (by rw [hentries]; rfl), List.forall_mem_nil _, List.forall_mem_nil _⟩,
    ⟨fun _ => ?_, hlast.torn ?_⟩,
    ⟨(Nat.mod_eq_of_lt hnext).symm, List.forall_mem_nil _, fun _ => List.nodup_nil,
      List.forall_mem_nil _, fun _ => rfl⟩,
    fun h₀ => ⟨?_, False.elim, List.forall_mem_nil _, fun _ hq => absurd hq List.not_mem_nil,
      fun _ hq => absurd hq List.not_mem_nil⟩⟩
  · rw [Layout.files, hsegs]
    simp [Opened.start, h.files, storedLayout, StoredSegment.toSeg_file, Function.comp_def,
      StoredSegment.file]
  · intro seg hseg
    obtain ⟨x, hx, rfl⟩ := List.mem_map.mp hseg
    exact htail x (List.mem_append_left _ hx)
  · intro seq hseq
    refine ⟨Opened.fileOf_of_gt (o := o) (by rw [h.files, List.map_append]; rfl) hseq, ?_⟩
    exact StoredLog.recordsOf_of_gt fun seg hseg => Nat.lt_of_le_of_lt (h.seq_le_last seg hseg) hseq
  · intro seg hseg
    rw [hsegs] at hseg
    obtain ⟨x, hx, rfl⟩ := List.mem_map.mp hseg
    have heq : StoredLog.recordsOf (front ++ [last]) x.seq = x.records :=
      StoredLog.recordsOf_of_mem h.seqs_sorted hx
    exact ⟨[], (List.append_nil _).trans heq⟩
  · intro seg hseg
    rw [hsegs] at hseg
    obtain ⟨x, -, rfl⟩ := List.mem_map.mp hseg
    rfl
  · rw [hrecords]; rfl
  · rw [hrecords]; exact List.prefix_append _ _
  · -- without any record there is nothing to sync
    intro seg hseg hne
    exact absurd (List.flatMap_eq_nil_iff.mp (hrecords.trans h₀) seg
      (Layout.mem_segs.mpr (.inl hseg))) hne

/-! ## What is left behind the records -/

theorem sizeAll_le_of_isPrefix {rs ts : List WalRecord} (h : rs <+: ts) :
    sizeAll rs ≤ sizeAll ts := by
  obtain ⟨more, rfl⟩ := h
  simp

namespace StoredLog

variable {s : State} {L : Layout}

/-- The file of a number as it was opened, in terms of the stored segments. -/
theorem fileOf_eq (h : StoredLog crc o front last) (seq : Nat) :
    (∃ seg ∈ front ++ [last], seg.seq = seq ∧ o.fileOf seq = (seg.file crc).2) ∨
      o.fileOf seq = [] := by
  cases hfind : o.dir.find? seq with
  | none => exact .inr (by rw [Opened.fileOf, hfind]; rfl)
  | some file =>
    have hmem := Dir.find?_eq_some.mp hfind
    rw [h.files] at hmem
    obtain ⟨seg, hseg, hfile⟩ := List.mem_map.mp hmem
    refine .inl ⟨seg, hseg, congrArg Prod.fst hfile, ?_⟩
    rw [Opened.fileOf, hfind, hfile]
    rfl

/-- On a log of whole records the writer has nothing behind its cursor. -/
theorem tail_nil (h : StoredLog crc o front last) {synced : Nat → Nat}
    (hwhole : ∀ seg ∈ front ++ [last], seg.rest = [])
    (hi : Inv crc (h.origin synced) (· = segmentHeader) s L) {seg : Seg} (hseg : seg ∈ L.segs) :
    ((h.origin synced).fileOf seg.seq).drop seg.stop = [] := by
  refine List.drop_eq_nil_of_le ?_
  have hbase : seg.base = segmentHeader := hi.disk.base seg hseg
  have hgrown : sizeAll (recordsOf (front ++ [last]) seg.seq) ≤ sizeAll seg.records :=
    sizeAll_le_of_isPrefix (hi.disk.grown seg hseg)
  rcases h.fileOf_eq seg.seq with ⟨x, hx, hseq, hfile⟩ | hnil
  · rw [← hseq, recordsOf_of_mem h.seqs_sorted hx] at hgrown
    show (o.fileOf seg.seq).length ≤ seg.stop
    rw [hfile, StoredSegment.file, hwhole x hx, Seg.stop, hbase]
    simp only [List.length_append, List.append_nil, encodeRecords_length]
    omega
  · show (o.fileOf seg.seq).length ≤ seg.stop
    rw [hnil]
    exact Nat.zero_le _

end StoredLog

/-! ## Clean logs -/

/-- A directory as whole appends and flushes leave it: no bytes behind the
records, and ids that are all different and below `2 ^ 64 - 1`. The empty
directory is one. -/
structure CleanLog (crc : Bytes → UInt32) (dir : Dir Bytes) (segs : List StoredSegment) : Prop where
  files : dir.files = segs.map (StoredSegment.file crc)
  whole : ∀ seg ∈ segs, seg.rest = []
  fits : ∀ r ∈ allRecords segs, r.Fits ∧ r.id + 1 < 2 ^ 64
  nodup : ((allRecords segs).map WalRecord.id).Nodup

theorem cleanLog_empty (crc : Bytes → UInt32) : CleanLog crc .empty [] :=
  ⟨rfl, List.forall_mem_nil _, List.forall_mem_nil _, List.nodup_nil⟩

namespace CleanLog

variable {dir : Dir Bytes} {segs : List StoredSegment}

theorem wellFormed (h : CleanLog crc dir segs) : ∀ seg ∈ segs, seg.WellFormed crc := by
  intro seg hseg
  refine ⟨fun r hr => (h.fits r (List.mem_flatMap.mpr ⟨seg, hseg, hr⟩)).1, ?_⟩
  rw [h.whole seg hseg]
  exact readNext_short (by decide)

/-- Opening a clean log: the stored segments, or a first one without records. -/
theorem opened (h : CleanLog crc dir segs)
    (hopen : openWithConfig crc config (.directory dir) = .ok o) :
    ∃ front last, StoredLog crc o front last ∧
      (∀ seg ∈ front ++ [last], seg.rest = []) ∧
      allRecords (front ++ [last]) = allRecords segs := by
  obtain ⟨front, last, hlog, hsegs⟩ := storedLog_of_open h.files h.wellFormed hopen
  refine ⟨front, last, hlog, ?_, ?_⟩
  · rw [hsegs]
    split
    · intro seg hseg
      rw [List.mem_singleton.mp hseg]
    · exact h.whole
  · rw [hsegs]
    split
    · rename_i hnil
      rw [hnil]
      rfl
    · rfl

theorem id_lt_nextId (h : CleanLog crc dir segs)
    (hopen : openWithConfig crc config (.directory dir) = .ok o) :
    ∀ r ∈ allRecords segs, r.id < o.nextId := by
  obtain ⟨front, last, hlog, -, hrecords⟩ := h.opened hopen
  rw [← hrecords]
  refine hlog.id_lt_nextId fun r hr => (h.fits r ?_).2
  rwa [← hrecords]

end CleanLog

/-- New ids start behind the stored ones, so as long as the counter does not
wrap all ids are different. -/
theorem Inv.nodup_ids {origin : Origin} {s : State} {L : Layout} (h : Inv crc origin Base s L)
    (hold : (origin.records.map WalRecord.id).Nodup)
    (hlt : ∀ r ∈ origin.records, r.id < origin.nextId) (hids : origin.nextId + s.taken ≤ 2 ^ 64) :
    ((origin.records ++ s.received).map WalRecord.id).Nodup := by
  have hnew : (s.received.map WalRecord.id).Nodup := by
    refine (h.requests.nodup (by omega)).sublist (List.Sublist.map _ ?_)
    exact (List.sublist_append_left _ _).trans (List.sublist_append_left _ _)
  rw [List.map_append]
  refine List.nodup_append.mpr ⟨hold, hnew, ?_⟩
  intro a ha b hb
  obtain ⟨x, hx, rfl⟩ := List.mem_map.mp ha
  obtain ⟨y, hy, rfl⟩ := List.mem_map.mp hb
  obtain ⟨k, hk, hid⟩ := h.requests.range y (mem_requests_of_received hy)
  rw [hid, Nat.mod_eq_of_lt (by omega)]
  have := hlt x hx
  omega

theorem Inv.fits {origin : Origin} {s : State} {L : Layout} (h : Inv crc origin Base s L) :
    ∀ r ∈ origin.records ++ s.received, r.Fits := by
  intro r hr
  rcases List.mem_append.mp hr with hr | hr
  · exact origin.fits r hr
  · exact h.requests.fits (mem_requests_of_received hr)

/-- The invariant after any run on a clean log, with all records of the log
in the layout and nothing behind them but a last write that was cut short. -/
theorem CleanLog.run_inv {dir : Dir Bytes} (h : CleanLog crc dir segs)
    (hopen : openWithConfig crc config (.directory dir) = .ok o) {synced : Nat → Nat}
    {as : List Action} {s : State} (hrun : run (step crc) (o.start config synced) as = some s) :
    ∃ (origin : Origin) (L : Layout), Inv crc origin (· = segmentHeader) s L ∧
      origin.index = ∅ ∧ origin.records = allRecords segs ∧ origin.nextId = o.nextId ∧
      ∀ seg ∈ L.segs, (origin.fileOf seg.seq).drop seg.stop = [] := by
  obtain ⟨front, last, hlog, hwhole, hrecords⟩ := h.opened hopen
  obtain ⟨L, hi⟩ := Wal.run_inv
    (hlog.start_inv (openWithConfig_nextId_lt hopen) config synced) rfl hrun
  exact ⟨hlog.origin synced, L, hi, rfl, hrecords, rfl,
    fun seg hseg => hlog.tail_nil hwhole hi hseg⟩

/-! ## The directory as stored segments again -/

/-- A segment of the layout, read as stored. -/
def Seg.toStored (seg : Seg) : StoredSegment := ⟨seg.seq, seg.records, seg.tail⟩

/-- The segments a reader of the directory finds. -/
def Layout.stored (L : Layout) : List StoredSegment := L.segs.map Seg.toStored

section Contents

variable {origin : Origin} {s : State} {L : Layout}

theorem Layout.allRecords_stored (L : Layout) : allRecords L.stored = L.records := by
  simp [allRecords, Layout.stored, Layout.records, List.flatMap_map, Seg.toStored]

theorem Inv.allEntries_stored (h : Inv crc origin (· = segmentHeader) s L) :
    allEntries L.stored = L.entries := by
  rw [allEntries, Layout.stored, List.flatMap_map, Layout.entries]
  refine List.flatMap_congr fun seg hseg => ?_
  show locationsFrom seg.seq headerLen seg.records = _
  rw [Seg.entries, h.disk.base seg hseg, segmentHeader_length]

theorem Inv.contents_files (h : Inv crc origin (· = segmentHeader) s L) (hstray : L.stray = []) :
    s.contents.files = L.stored.map (StoredSegment.file crc) := by
  rw [State.contents, Dir.map_files, h.disk.files, Layout.files, hstray, List.append_nil,
    List.map_map, Layout.stored, List.map_map]
  refine List.map_congr_left fun seg hseg => ?_
  simp [Seg.file, Seg.bytes, h.disk.base seg hseg, Seg.toStored, StoredSegment.file]

theorem Inv.tailOk {Base : Bytes → Prop} (h : Inv crc origin Base s L) (hrun : s.pc ≠ .stopped)
    {seg : Seg} (hseg : seg ∈ L.segs) : TailOk origin seg := by
  rcases Layout.mem_segs.mp hseg with hclosed | rfl
  · exact h.disk.tails seg hclosed
  · exact h.disk.tail hrun

/-- While the writer runs, nothing stands behind the records. -/
theorem Inv.tail_nil {Base : Bytes → Prop} (h : Inv crc origin Base s L)
    (htails : ∀ seg ∈ L.segs, (origin.fileOf seg.seq).drop seg.stop = [])
    (hrun : s.pc ≠ .stopped) : ∀ seg ∈ L.segs, seg.tail = [] :=
  fun seg hseg => (h.tailOk hrun hseg).trans (htails seg hseg)

/-- **An idle writer on a clean log has all it received in the files**, and
nothing else. -/
theorem Inv.stored_of_idle (h : Inv crc origin (· = segmentHeader) s L)
    (htails : ∀ seg ∈ L.segs, (origin.fileOf seg.seq).drop seg.stop = [])
    (hidle : s.pc = .idle) :
    s.contents.files = L.stored.map (StoredSegment.file crc) ∧
      (∀ seg ∈ L.stored, seg.WellFormed crc) ∧
      allRecords L.stored = origin.records ++ s.received ∧
      s.index = insertAll origin.index (allEntries L.stored) := by
  obtain ⟨hrun, hstray, hlog⟩ := h.between (.inl hidle)
  refine ⟨h.contents_files hstray, ?_, by rw [Layout.allRecords_stored, hlog], ?_⟩
  · intro st hst
    obtain ⟨seg, hseg, rfl⟩ := List.mem_map.mp hst
    refine ⟨fun r hr => h.fits r ?_, ?_⟩
    · rw [← hlog]
      exact List.mem_flatMap.mpr ⟨seg, hseg, hr⟩
    · show ∀ offset, readNextRecordWithOffset crc seg.tail offset = .ok none
      rw [h.tail_nil htails hrun seg hseg]
      exact readNext_short (by decide)
  · rw [h.allEntries_stored, h.index.eq (by rw [hidle]; rfl)]

end Contents

/-- What a run on a clean log has received may stand behind the old records of
a clean log. -/
theorem CleanLog.received {dir : Dir Bytes} {origin : Origin} {s : State} {L : Layout}
    (h : CleanLog crc dir segs) (hopen : openWithConfig crc config (.directory dir) = .ok o)
    (hi : Inv crc origin Base s L) (hrecords : origin.records = allRecords segs)
    (hnext : origin.nextId = o.nextId) (hids : o.nextId + s.taken < 2 ^ 64) :
    (∀ r ∈ allRecords segs ++ s.received, r.Fits ∧ r.id + 1 < 2 ^ 64) ∧
      ((allRecords segs ++ s.received).map WalRecord.id).Nodup := by
  constructor
  · intro r hr
    rcases List.mem_append.mp hr with hr | hr
    · exact h.fits r hr
    · have hreq := mem_requests_of_received hr
      obtain ⟨k, hk, hid⟩ := hi.requests.range r hreq
      rw [hnext, Nat.mod_eq_of_lt (by omega)] at hid
      exact ⟨hi.requests.fits hreq, by omega⟩
  · rw [← hrecords]
    exact hi.nodup_ids (hrecords ▸ h.nodup)
      (by rw [hrecords, hnext]; exact h.id_lt_nextId hopen) (by rw [hnext]; omega)

end BlipMQ.Wal
