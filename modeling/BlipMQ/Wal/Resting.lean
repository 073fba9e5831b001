import BlipMQ.Wal.Iterate
import BlipMQ.Wal.Reopen

/-!
# WAL — a log at rest after any calls

Calls of `compact_below` may fail halfway, and they may race with each other
and with a roll: then the index leads to a file that is gone, or the writer
goes on in a file without a name. All the same the index leads to every
record in a file that has a name, to the place where it stands, and for the
rest only to files that are gone.
-/

namespace BlipMQ.Wal

/-- The log is at rest, and `segs` are its segments that have a name. -/
structure Resting (crc : Bytes → UInt32) (c : Compacting) (segs : List StoredSegment) : Prop where
  clean : CleanLog crc c.contents segs
  rolled : c.Rolled
  indexed : ∀ e ∈ allEntries segs, c.log.index.lookup e.1 = some e.2
  entries : ∀ id loc, c.log.index.lookup id = some loc →
    (id, loc) ∈ allEntries segs ∨ loc.segmentSeq ∈ c.removedSeqs

section Run

variable {crc : Bytes → UInt32} {config : WalConfig} {dir : Dir Bytes}
  {segs : List StoredSegment} {o : Opened} (hclean : CleanLog crc dir segs)
  (hopen : openWithConfig crc config (.directory dir) = .ok o) {synced : Nat → Nat}
  {as : List CompactAction} {c : Compacting}
  (hrun : run (Compacting.step crc) (Compacting.start o config synced) as = some c)

include hclean hopen hrun

/-- The invariant after any run on a clean log. -/
theorem CleanLog.run_looseInv : ∃ origin full L, LooseInv crc origin c full L ∧ origin.index = ∅ ∧
    origin.records = allRecords segs ∧ origin.nextId = o.nextId ∧
    ∀ seg ∈ L.segs, (origin.fileOf seg.seq).drop seg.stop = [] := by
  obtain ⟨front, last, hlog, hwhole, hrecords⟩ := hclean.opened hopen
  have hstart := hlog.start_compactInv (openWithConfig_nextId_lt hopen) config synced
  have hinv := run_invariant (P := fun c => ∃ full L, LooseInv crc (hlog.origin synced) c full L)
    (fun c a c' hP hs => by
      obtain ⟨full, L, h⟩ := hP
      obtain ⟨full', L', h', -⟩ := h.step hs
      exact ⟨full', L', h'⟩)
    ⟨_, _, hstart.toLooseInv⟩ hrun
  obtain ⟨full, L, h⟩ := hinv
  exact ⟨hlog.origin synced, full, L, h, rfl, hrecords, rfl,
    fun seg hseg => hlog.tail_nil hwhole h.inv hseg⟩

/-- **Once the writer is idle, the files that have a name are a clean log, the index has
all of it**, and all else it has leads to removed files. -/
theorem CleanLog.run_resting (hids : o.nextId + c.log.taken < 2 ^ 64) (hidle : c.log.pc = .idle) :
    ∃ segs', Resting crc c segs' := by
  obtain ⟨origin, full, L, h, hempty, hrecords, hnext, htails⟩ := hclean.run_looseInv hopen hrun
  obtain ⟨-, -, hall, hindex⟩ := h.inv.stored_of_idle htails hidle
  have hfull : full = insertAll ∅ (allEntries L.stored) := hempty ▸ hindex
  obtain ⟨hfits, hnd⟩ := hclean.received hopen h.inv hrecords hnext hids
  rw [hrecords] at hall
  rw [← hall] at hfits hnd
  have hnamedClean := h.inv.clean_named htails hidle hfits hnd
  refine ⟨L.named c.removedSeqs, hnamedClean, ?_, ?_, ?_⟩
  · intro seq hseq
    rw [listSegmentSeqs_eq, seqs_of_files hnamedClean.files] at hseq
    obtain ⟨st, hst, rfl⟩ := List.mem_map.mp hseq
    obtain ⟨seg, hseg, rfl⟩ := List.mem_map.mp (List.mem_of_mem_filter hst)
    have hactive : c.log.currentSegmentSeq = L.active.seq := h.inv.disk.currentSeq
    rw [hactive]
    exact h.inv.seq_le_active hseg
  · intro e he
    rw [L.allEntries_named] at he
    obtain ⟨hmem, hnot⟩ := List.mem_filter.mp he
    refine h.kept e.1 e.2 ?_ (of_decide_eq_true hnot)
    rw [hfull]
    exact lookup_insertAll_of_mem (by rwa [allEntries_ids]) hmem
  · intro id loc hlook
    have hmem := h.entered id loc hlook
    rw [hfull] at hmem
    by_cases hremoved : loc.segmentSeq ∈ c.removedSeqs
    · exact .inr hremoved
    · refine .inl ?_
      rw [L.allEntries_named]
      exact List.mem_filter.mpr ⟨mem_of_lookup_insertAll_empty hmem, decide_eq_true hremoved⟩

end Run

namespace Resting

variable {crc : Bytes → UInt32} {c : Compacting} {segs : List StoredSegment} {seg : StoredSegment}

theorem notMem_removed (h : Resting crc c segs) (hseg : seg ∈ segs) : seg.seq ∉ c.removedSeqs := by
  have hfile : seg.file crc ∈ c.contents.files := by
    rw [h.clean.files]
    exact List.mem_map_of_mem hseg
  exact of_decide_eq_true (List.mem_filter.mp hfile).2

theorem seq_inj (h : Resting crc c segs) {seg' : StoredSegment} (hseg : seg ∈ segs)
    (hseg' : seg' ∈ segs) (heq : seg.seq = seg'.seq) : seg = seg' := by
  have hnd := c.contents.nodup_seqs
  rw [seqs_of_files h.clean.files] at hnd
  exact List.inj_on_of_nodup_map hnd hseg hseg' heq

/-- The index leads to every record, where it stands. -/
theorem lookup (h : Resting crc c segs) {x : WalRecord × RecordLocation}
    (hx : x ∈ allLocated segs) : c.log.index.lookup x.1.id = some x.2 := by
  refine h.indexed (x.1.id, x.2) ?_
  rw [← allLocated_entries]
  exact List.mem_map.mpr ⟨x, hx, rfl⟩

/-- A scan of a file finds the records of its segment, where they stand. -/
theorem scan_file (h : Resting crc c segs) (hseg : seg ∈ segs) :
    scanRecords crc ((seg.file crc).2.drop headerLen) headerLen =
      .ok (located headerLen seg.records, headerLen + sizeAll seg.records) := by
  have hscan := (h.clean.wellFormed seg hseg).scan_from (List.nil_append seg.records).symm
  rwa [sizeAll_nil, Nat.add_zero] at hscan

end Resting

end BlipMQ.Wal
