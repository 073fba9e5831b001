import BlipMQ.Core.Replay
import BlipMQ.Wal.Compactor

/-!
# Broker — the log on disk

The broker's log is the WAL at rest: an index and a directory without a
request on its way. Reading, reopening, appending and compacting the WAL
are reading, keeping, extending and compacting the log, as long as requests
are sent in the order of their ids.
-/

namespace BlipMQ.Core

open Wal

/-- A segment as the WAL stores it. -/
def Segment.stored (seg : Segment) : StoredSegment := ⟨seg.seq, seg.records, []⟩

/-- A segment of a running WAL, for the broker. -/
def Segment.ofSeg (seg : Seg) : Segment := ⟨seg.seq, seg.records⟩

def Log.stored (log : Log) : List StoredSegment := log.segments.map Segment.stored

/-- The index and the directory hold the log, and nothing else. -/
structure OnDisk (crc : Bytes → UInt32) (index : Index) (dir : Dir Bytes) (log : Log) : Prop where
  files : dir.files = log.stored.map (StoredSegment.file crc)
  index : index = insertAll ∅ (allEntries log.stored)
  fits : ∀ r ∈ log.records, r.Fits

/-- The index and the files of a log. -/
def Log.index (log : Log) : Index := insertAll ∅ (allEntries log.stored)

def Log.dir (crc : Bytes → UInt32) (log : Log) : Dir Bytes :=
  log.stored.foldl (fun d seg => d.insert seg.seq (seg.file crc).2) .empty

theorem Log.allRecords_stored (log : Log) : allRecords log.stored = log.records := by
  rw [allRecords, Log.stored, List.flatMap_map]
  rfl

section OnDisk

variable {crc : Bytes → UInt32} {index : Index} {dir : Dir Bytes} {log : Log}

theorem OnDisk.wellFormed (h : OnDisk crc index dir log) :
    ∀ seg ∈ log.stored, seg.WellFormed crc := by
  intro st hst
  obtain ⟨seg, hseg, rfl⟩ := List.mem_map.mp hst
  refine ⟨fun r hr => h.fits r (List.mem_flatMap.mpr ⟨seg, hseg, hr⟩), ?_⟩
  exact readNext_short (show ([] : Bytes).length < recordHeaderLen by decide)

/-! ## Reading -/

/-- **Reading the WAL is reading the log.** -/
theorem OnDisk.iterateFrom (h : OnDisk crc index dir log) (fromId : Nat) :
    Wal.iterateFrom crc index dir fromId = .ok (log.iterateFrom fromId) := by
  have hsorted : ((allRecords log.stored).map WalRecord.id).Pairwise (· < ·) := by
    rw [log.allRecords_stored]
    exact log.ascending
  rw [h.index, iterateFrom_stored_ascending h.files h.wellFormed hsorted, log.allRecords_stored]
  rfl

/-- Replaying the files is replaying the log. -/
theorem OnDisk.replayFromFiles (h : OnDisk crc index dir log) (E : Externals) (now : Nat)
    (b : Broker) (checkpoint : Option CheckpointSnapshot) :
    b.replayFromFiles E crc now index dir checkpoint =
      .ok (b.replayFromWalWithCheckpoint E now log checkpoint) := by
  rw [Broker.replayFromFiles, h.iterateFrom]
  rfl

/-! ## Reopening -/

theorem OnDisk.cleanLog (h : OnDisk crc index dir log) (hids : log.nextId < 2 ^ 64) :
    CleanLog crc dir log.stored := by
  refine ⟨h.files, ?_, ?_, ?_⟩
  · intro st hst
    obtain ⟨seg, -, rfl⟩ := List.mem_map.mp hst
    rfl
  · intro r hr
    rw [log.allRecords_stored] at hr
    have hlt := (log.bounded r hr).2
    exact ⟨h.fits r hr, by omega⟩
  · rw [log.allRecords_stored]
    exact log.ascending.imp Nat.ne_of_lt

/-- **Reopening finds the same records**, in the same segments; ids go on behind
the last record. -/
theorem OnDisk.reopen (h : OnDisk crc index dir log) (hids : log.nextId < 2 ^ 64)
    {config : WalConfig} {o : Opened}
    (hopen : openWithConfig crc config (.directory dir) = .ok o) :
    ∃ log', OnDisk crc o.index o.dir log' ∧ log'.segments = log.segments ∧
      log'.nextId = o.nextId := by
  have hstored : log.stored = log.closed.map Segment.stored ++ [log.active.stored] := by
    rw [Log.stored, Log.segments, List.map_append, List.map_singleton]
  have hbound := (h.cleanLog hids).id_lt_nextId hopen
  have hnext := openWithConfig_nextId_lt hopen
  rw [log.allRecords_stored] at hbound
  have hopened := openWithConfig_stored (openWithConfig_valid hopen) (hstored ▸ h.files)
    (hstored ▸ h.wellFormed)
  rw [hopened, ← hstored] at hopen
  cases hopen
  have hpos : 1 ≤ nextIdAfter 1 ((allRecords log.stored).map WalRecord.id) := by
    refine (lt_nextIdAfter fun id hid => ?_).1
    obtain ⟨r, hr, rfl⟩ := List.mem_map.mp hid
    exact ((h.cleanLog hids).fits r hr).2
  refine ⟨{ log with
    nextId := _
    bounded := fun r hr => ⟨(log.bounded r hr).1, hbound r hr⟩
    pos := hpos
    nextId_le := Nat.le_of_lt hnext }, ⟨h.files, rfl, h.fits⟩, rfl, rfl⟩

/-! ## Appending -/

/-- **From one rest to the next the log grows by what was accepted**, whatever
callers, writer and file operations did in between. -/
theorem OnDisk.grows_by_accepted (h : OnDisk crc index dir log) (hids : log.nextId < 2 ^ 64)
    {config : WalConfig} {o : Opened} (hopen : openWithConfig crc config (.directory dir) = .ok o)
    {synced : Nat → Nat} {as : List Action} {s : State}
    (hrun : run (step crc) (o.start config synced) as = some s)
    (htaken : o.nextId + s.taken ≤ 2 ^ 64) (hidle : s.pc = .idle) (hempty : s.channel = [])
    (horder : ((log.records ++ s.accepted).map WalRecord.id).Pairwise (· < ·)) :
    ∃ log', OnDisk crc s.index s.contents log' ∧ log'.records = log.records ++ s.accepted ∧
      log'.nextId = o.nextId + s.taken := by
  have hclean := h.cleanLog hids
  obtain ⟨log₀, -, -, hnext₀⟩ := h.reopen hids hopen
  have hpos : 0 < o.nextId := hnext₀ ▸ log₀.pos
  obtain ⟨origin, L, hi, hindex, hrecords, hnext, htails⟩ := hclean.run_inv hopen hrun
  obtain ⟨hfiles, -, hall, hidx⟩ := hi.stored_of_idle htails hidle
  have haccepted : s.accepted = s.received := by
    simpa [hempty, channelRecords] using hi.requests.order (by rw [hidle]; simp)
  rw [log.allRecords_stored] at hrecords
  rw [Layout.allRecords_stored, hrecords, ← haccepted] at hall
  have hsegments : recordsOf (L.closed.map Segment.ofSeg ++ [Segment.ofSeg L.active]) =
      log.records ++ s.accepted := by
    rw [← hall, ← List.map_singleton, ← List.map_append, recordsOf, List.flatMap_map]
    rfl
  have hstored : (L.closed.map Segment.ofSeg ++ [Segment.ofSeg L.active]).map Segment.stored =
      L.stored := by
    rw [← List.map_singleton, ← List.map_append, List.map_map]
    refine List.map_congr_left fun seg hseg => ?_
    show StoredSegment.mk seg.seq seg.records [] = ⟨seg.seq, seg.records, seg.tail⟩
    rw [hi.tail_nil htails (by rw [hidle]; simp) seg hseg]
  have hbounded : ∀ r ∈ log.records ++ s.accepted, 0 < r.id ∧ r.id < o.nextId + s.taken := by
    intro r hr
    rcases List.mem_append.mp hr with hr | hr
    · have hlt := hclean.id_lt_nextId hopen r (by rwa [log.allRecords_stored])
      exact ⟨(log.bounded r hr).1, by omega⟩
    · rw [haccepted] at hr
      obtain ⟨k, hk, hid⟩ := hi.requests.range r (mem_requests_of_received hr)
      rw [hnext, Nat.mod_eq_of_lt (by omega)] at hid
      omega
  have hfits : ∀ r ∈ log.records ++ s.accepted, r.Fits := by
    rw [haccepted, ← hrecords]
    exact hi.fits
  refine ⟨⟨L.closed.map Segment.ofSeg, Segment.ofSeg L.active, o.nextId + s.taken,
    hsegments ▸ horder, hsegments ▸ hbounded, by omega, htaken⟩,
    ⟨hfiles.trans (congrArg _ hstored.symm), ?_, fun r hr => hfits r (hsegments ▸ hr)⟩,
    hsegments, rfl⟩
  rw [hidx, hindex]
  exact congrArg (fun segs => insertAll ∅ (allEntries segs)) hstored.symm

/-- A log with a message and its ack. -/
def messageAcked : Log := .ofEntries [.message ⟨"t", .atLeastOnce, [5]⟩, .ack ⟨"c", "t", 1⟩]

/-- It is reopened, and two callers append in turn. -/
theorem OnDisk.grows_by_two_appends : ∃ o s log',
    openWithConfig Crc32.crc32 .default (.directory (messageAcked.dir Crc32.crc32)) = .ok o ∧
      run (step Crc32.crc32) (o.start .default fun _ => 0) inOrderRun = some s ∧
      OnDisk Crc32.crc32 s.index s.contents log' ∧
      log'.records = messageAcked.records ++ [⟨3, [7]⟩, ⟨4, [9]⟩] := by
  obtain ⟨o, hopen, s, hs, htaken, hidle, hempty, haccepted⟩ : ∃ o, openWithConfig Crc32.crc32
      .default (.directory (messageAcked.dir Crc32.crc32)) = .ok o ∧
        ∃ s, run (step Crc32.crc32) (o.start .default fun _ => 0) inOrderRun = some s ∧
          o.nextId + s.taken ≤ 2 ^ 64 ∧ s.pc = .idle ∧ s.channel = [] ∧
          s.accepted = [⟨3, [7]⟩, ⟨4, [9]⟩] := by decide +kernel
  have hdisk : OnDisk Crc32.crc32 messageAcked.index (messageAcked.dir Crc32.crc32)
      messageAcked := ⟨by decide +kernel, rfl, by decide +kernel⟩
  obtain ⟨log', hlog', hrecords, -⟩ := hdisk.grows_by_accepted (by decide) hopen hs htaken hidle
    hempty (by rw [haccepted]; decide +kernel)
  exact ⟨o, s, log', hopen, hs, hlog', haccepted ▸ hrecords⟩

/-! ## Compacting -/

theorem OnDisk.seqs (h : OnDisk crc index dir log) : dir.seqs = log.segments.map Segment.seq := by
  rw [Dir.seqs, h.files, Log.stored, List.map_map, List.map_map]
  rfl

theorem OnDisk.seqs_sorted (h : OnDisk crc index dir log) :
    (log.segments.map Segment.seq).Pairwise (· < ·) := by
  rw [← h.seqs]
  exact List.pairwise_map.mpr dir.sorted

variable {seg : Segment}

/-- Segments are told apart by their numbers. -/
theorem OnDisk.seq_inj (h : OnDisk crc index dir log) {seg' : Segment} (hseg : seg ∈ log.segments)
    (hseg' : seg' ∈ log.segments) (hseq : seg.seq = seg'.seq) : seg = seg' :=
  List.inj_on_of_nodup_map (h.seqs_sorted.imp Nat.ne_of_lt) hseg hseg' hseq

theorem OnDisk.mem_closed (h : OnDisk crc index dir log) :
    seg ∈ log.closed ↔ seg ∈ log.segments ∧ seg.seq ≠ log.active.seq := by
  have hsorted := h.seqs_sorted
  rw [Log.segments, List.map_append, List.pairwise_append] at hsorted
  constructor
  · intro hseg
    refine ⟨List.mem_append_left _ hseg, Nat.ne_of_lt ?_⟩
    exact hsorted.2.2 _ (List.mem_map_of_mem hseg) _ (by simp)
  · rintro ⟨hseg, hne⟩
    rcases List.mem_append.mp hseg with hseg | hseg
    · exact hseg
    · rw [List.mem_singleton.mp hseg] at hne
      exact absurd rfl hne

theorem Log.nodup_entries (log : Log) : ((allEntries log.stored).map Prod.fst).Nodup := by
  rw [allEntries_ids, log.allRecords_stored]
  exact log.ascending.imp Nat.ne_of_lt

theorem OnDisk.lookup_of_mem (h : OnDisk crc index dir log) (hseg : seg ∈ log.segments)
    {r : WalRecord} (hr : r ∈ seg.records) :
    ∃ loc, index.lookup r.id = some loc ∧ loc.segmentSeq = seg.seq := by
  rw [← located_map_fst headerLen seg.records] at hr
  obtain ⟨⟨r, o⟩, hro, rfl⟩ := List.mem_map.mp hr
  refine ⟨⟨seg.seq, o⟩, ?_, rfl⟩
  rw [h.index]
  refine lookup_insertAll_of_mem log.nodup_entries (mem_allEntries.mpr ?_)
  exact ⟨seg.stored, List.mem_map_of_mem hseg, r, rfl, rfl, hro⟩

theorem OnDisk.mem_of_lookup (h : OnDisk crc index dir log) {id : Nat} {loc : RecordLocation}
    (hlook : index.lookup id = some loc) :
    ∃ seg ∈ log.segments, loc.segmentSeq = seg.seq ∧ ∃ r ∈ seg.records, r.id = id := by
  rw [h.index] at hlook
  rcases mem_of_lookup_insertAll hlook with hmem | hnone
  · obtain ⟨st, hst, r, rfl, hseq, hr⟩ := mem_allEntries.mp hmem
    obtain ⟨seg, hseg, rfl⟩ := List.mem_map.mp hst
    refine ⟨seg, hseg, hseq, r, ?_, rfl⟩
    rw [← located_map_fst headerLen seg.records]
    exact List.mem_map_of_mem (f := Prod.fst) hr
  · rw [AList.lookup_empty] at hnone
    cases hnone

theorem Log.mem_compactable {t : Nat} :
    seg ∈ log.compactable t ↔ seg ∈ log.closed ∧ ∀ r ∈ seg.records, r.id ≤ t := by
  simp [Log.compactable]

/-- **At rest `compact_below` chooses the closed segments without a record above
the threshold.** -/
theorem OnDisk.segmentsToDelete (h : OnDisk crc index dir log) (t : Nat) :
    Wal.segmentsToDelete t log.active.seq (maxIdPerSegment index) dir.seqs =
      (log.compactable t).map Segment.seq := by
  have hclosed : (log.closed.map Segment.seq).Pairwise (· < ·) := by
    have hsorted := h.seqs_sorted
    rw [Log.segments, List.map_append, List.pairwise_append] at hsorted
    exact hsorted.1
  refine (segmentsToDelete_sorted ..).eq_of_mem_iff
    (hclosed.sublist (List.filter_sublist.map _)) fun q => ?_
  rw [mem_segmentsToDelete, List.mem_map]
  constructor
  · rintro ⟨hne, ⟨m, hm, hle⟩ | ⟨hlisted, hnone⟩⟩
    · obtain ⟨loc, hlook, rfl⟩ := lookup_of_maxIdPerSegment hm
      obtain ⟨seg, hseg, hseq, -⟩ := h.mem_of_lookup hlook
      refine ⟨seg, Log.mem_compactable.mpr ⟨h.mem_closed.mpr ⟨hseg, hseq ▸ hne⟩, ?_⟩, hseq.symm⟩
      intro r hr
      obtain ⟨loc', hlook', hseq'⟩ := h.lookup_of_mem hseg hr
      obtain ⟨m', hm', hle'⟩ := le_maxIdPerSegment hlook'
      rw [hseq', ← hseq, hm, Option.some.injEq] at hm'
      omega
    · rw [h.seqs] at hlisted
      obtain ⟨seg, hseg, rfl⟩ := List.mem_map.mp hlisted
      refine ⟨seg, Log.mem_compactable.mpr ⟨h.mem_closed.mpr ⟨hseg, hne⟩, fun r hr => ?_⟩, rfl⟩
      -- a segment without an index entry has no records
      obtain ⟨loc, hlook, hseq⟩ := h.lookup_of_mem hseg hr
      obtain ⟨m, hm, -⟩ := le_maxIdPerSegment hlook
      rw [hseq, hnone] at hm
      cases hm
  · rintro ⟨seg, hseg, rfl⟩
    obtain ⟨hclosed, hle⟩ := Log.mem_compactable.mp hseg
    obtain ⟨hmem, hne⟩ := h.mem_closed.mp hclosed
    refine ⟨hne, ?_⟩
    cases hlook : (maxIdPerSegment index).lookup seg.seq with
    | none => exact .inr ⟨by rw [h.seqs]; exact List.mem_map_of_mem hmem, rfl⟩
    | some m =>
      obtain ⟨loc, hloc, hseq⟩ := lookup_of_maxIdPerSegment hlook
      obtain ⟨seg', hseg', hseq', r, hr, rfl⟩ := h.mem_of_lookup hloc
      rw [h.seq_inj hseg' hmem (hseq'.symm.trans hseq)] at hr
      exact .inl ⟨r.id, rfl, hle r hr⟩

theorem OnDisk.stored_compactBelow (h : OnDisk crc index dir log) (t : Nat) :
    (log.compactBelow t (log.compactable t).length).stored =
      log.stored.filter fun st => st.seq ∉ (log.compactable t).map Segment.seq := by
  have hcompacted : log.compacted t (log.compactable t).length = log.compactable t :=
    List.take_length
  rw [Log.stored, Log.stored, Log.segments, Log.segments, List.filter_map, List.filter_append]
  congr 2
  · show log.closed.filter (· ∉ log.compacted t (log.compactable t).length) = _
    rw [hcompacted]
    refine List.filter_congr fun seg hseg => ?_
    rw [Function.comp_apply, decide_eq_decide, not_iff_not, List.mem_map]
    constructor
    · intro hmem
      exact ⟨seg, hmem, rfl⟩
    · rintro ⟨seg', hmem, hseq⟩
      have hclosed' := (Log.mem_compactable.mp hmem).1
      have heq := h.seq_inj (h.mem_closed.mp hclosed').1 (h.mem_closed.mp hseg).1 hseq
      exact heq ▸ hmem
  · refine (List.filter_eq_self.mpr fun seg hseg => ?_).symm
    rw [List.mem_singleton.mp hseg, Function.comp_apply, decide_eq_true_eq]
    intro hmem
    obtain ⟨seg', hmem', hseq⟩ := List.mem_map.mp hmem
    exact (h.mem_closed.mp (Log.mem_compactable.mp hmem').1).2 hseq

/-- What is left when the chosen files and their index entries are gone is the
compacted log. -/
theorem OnDisk.prune (h : OnDisk crc index dir log) (t : Nat) :
    OnDisk crc (pruneIndex index ((log.compactable t).map Segment.seq))
      (dir.filter fun seq => seq ∉ (log.compactable t).map Segment.seq)
      (log.compactBelow t (log.compactable t).length) := by
  refine ⟨?_, ?_, fun r hr => h.fits r ((Log.compactBelow_records ..).subset hr)⟩
  · show (dir.files.filter fun p => p.1 ∉ (log.compactable t).map Segment.seq) = _
    rw [h.files, h.stored_compactBelow, List.filter_map]
    rfl
  · have hentries := allEntries_filter log.stored
      fun seq => seq ∉ (log.compactable t).map Segment.seq
    rw [h.index, pruneIndex_insertAll log.nodup_entries, hentries, h.stored_compactBelow]

end OnDisk

/-! ## A whole call of `compact_below` -/

section Compacting

variable {crc : Bytes → UInt32} {c : Compacting} {log : Log}

/-- **A call of `compact_below` at rest compacts the log.** -/
theorem OnDisk.compacts (h : OnDisk crc c.log.index c.contents log)
    (hactive : c.log.currentSegmentSeq = log.active.seq) (t : Nat) :
    ∃ c', run (Compacting.step crc) c
        (compactRun c.compactors.length (log.compactable t).length t) = some c' ∧
      OnDisk crc c'.log.index c'.contents (log.compactBelow t (log.compactable t).length) := by
  have hdel : Wal.segmentsToDelete t c.log.currentSegmentSeq (maxIdPerSegment c.log.index)
      c.listSegmentSeqs = (log.compactable t).map Segment.seq := by
    rw [hactive, listSegmentSeqs_eq, h.segmentsToDelete]
  have hlisted : ∀ q ∈ (log.compactable t).map Segment.seq, q ∈ c.listSegmentSeqs := by
    intro q hq
    obtain ⟨seg, hseg, rfl⟩ := List.mem_map.mp hq
    rw [listSegmentSeqs_eq, h.seqs]
    exact List.mem_map_of_mem (h.mem_closed.mp (Log.mem_compactable.mp hseg).1).1
  have hrun := run_compactRun crc hdel hlisted
  rw [List.length_map] at hrun
  refine ⟨_, hrun, ?_⟩
  have hcontents : c.contents.filter (fun seq => seq ∉ (log.compactable t).map Segment.seq) =
      c.log.contents.filter fun seq =>
        seq ∉ (c.removed ++ ((log.compactable t).map Segment.seq).map fun q => (q, t)).map
          Prod.fst := by
    rw [Compacting.contents, Dir.filter_filter, List.map_append, List.map_map,
      show Prod.fst ∘ (fun q => (q, t)) = id from rfl, List.map_id]
    congr 1
    funext seq
    rw [Bool.eq_iff_iff, Bool.and_eq_true, decide_eq_true_eq, decide_eq_true_eq,
      decide_eq_true_eq, List.mem_append, not_or, and_comm]
    rfl
  have hprune := h.prune t
  rw [hcontents] at hprune
  exact hprune

/-- A record in each of two segments. -/
def twoSegments : Log :=
  ⟨[⟨1, [⟨1, [7]⟩]⟩], ⟨2, [⟨2, [9]⟩]⟩, 3, by decide, by decide, by decide, by decide⟩

def twoSegmentsAtRest : Compacting where
  log := Opened.start
    ⟨twoSegments.dir Crc32.crc32, twoSegments.index, 3, 2, 37⟩ tinyConfig fun _ => 0
  removed := []
  compactors := []

theorem OnDisk.compacts_two_segments : ∃ c',
    run (Compacting.step Crc32.crc32) twoSegmentsAtRest (compactRun 0 1 1) = some c' ∧
      OnDisk Crc32.crc32 c'.log.index c'.contents (twoSegments.compactBelow 1 1) := by
  have hdisk : OnDisk Crc32.crc32 twoSegmentsAtRest.log.index twoSegmentsAtRest.contents
    twoSegments := ⟨by decide +kernel, rfl, by decide⟩
  exact hdisk.compacts rfl 1

end Compacting

end BlipMQ.Core
