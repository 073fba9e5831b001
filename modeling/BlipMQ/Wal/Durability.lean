import BlipMQ.Lib.Crc32
import BlipMQ.Wal.Invariant

/-!
# WAL — what an acknowledgement promises

`append_durable` returns `Ok` once its oneshot channel is answered `Ok`,
and `flush` likewise. Both answers come out of `flush_file`, which drains
one pending list on behalf of batches, rolls and flush requests. The
result below covers every run: any interleaving of callers, any batching,
any rolls and any failing file operation.
-/

namespace BlipMQ.Wal

variable {crc : Bytes → UInt32} {origin : Origin} {Base : Bytes → Prop}
  {s : State} {L : Layout}

/-- The index leads to the record, and its whole header and payload lie in
the durable prefix of the file. -/
def OnDisk (crc : Bytes → UInt32) (s : State) (r : WalRecord) : Prop :=
  ∃ loc f, s.index.lookup r.id = some loc ∧ s.dir.find? loc.segmentSeq = some f ∧
    encodeRecord crc r <+: f.bytes.drop loc.offsetInSegment ∧
    loc.offsetInSegment + r.size ≤ f.synced

theorem Layout.entries_ids (L : Layout) : L.entries.map Prod.fst = L.records.map WalRecord.id := by
  simp only [Layout.entries, Layout.records, List.map_flatMap]
  exact List.flatMap_congr fun seg _ => locationsFrom_ids _ _ _

theorem Inv.nodup_records (h : Inv crc origin Base s L) (h₀ : origin.records = [])
    (hids : s.taken ≤ 2 ^ 64) : (L.records.map WalRecord.id).Nodup := by
  refine (h.requests.nodup hids).sublist (List.Sublist.map _ ?_)
  have hsub := h.log.torn.isPrefix.sublist
  rw [h₀, List.nil_append] at hsub
  exact hsub.trans ((List.sublist_append_left _ _).trans (List.sublist_append_left _ _))

variable {seg : Seg}

theorem Inv.mem_files (h : Inv crc origin Base s L) (hseg : seg ∈ L.segs) :
    s.dir.find? seg.seq = some ⟨seg.bytes crc, seg.synced⟩ := by
  rw [Dir.find?_eq_some, h.disk.files]
  exact List.mem_append_left _ (List.mem_map_of_mem hseg)

theorem Inv.segs_sorted (h : Inv crc origin Base s L) :
    L.segs.Pairwise fun a b => a.seq < b.seq := by
  have hsorted := s.dir.sorted
  rw [h.disk.files, Layout.files] at hsorted
  have hfiles := (List.pairwise_append.mp hsorted).1
  rwa [List.pairwise_map] at hfiles

theorem Inv.seg_unique (h : Inv crc origin Base s L) {a b : Seg} (ha : a ∈ L.segs)
    (hb : b ∈ L.segs) (hseq : a.seq = b.seq) : a = b := by
  have hnd : (L.segs.map Seg.seq).Nodup :=
    List.pairwise_map.mpr (h.segs_sorted.imp Nat.ne_of_lt)
  exact List.inj_on_of_nodup_map hnd ha hb hseq

variable {r : WalRecord}

/-- The index gives the place of every record of the layout, once the batch
in hand is in it. -/
theorem Inv.lookup_all (h : Inv crc origin Base s L) (hnd : (L.records.map WalRecord.id).Nodup)
    (hseg : seg ∈ L.segs) {o : Nat} (hr : (r, o) ∈ located seg.base.length seg.records) :
    (insertAll s.index s.pc.unindexed.2).lookup r.id = some ⟨seg.seq, o⟩ := by
  rw [h.index.index]
  refine lookup_insertAll_of_mem ?_ ?_
  · rwa [L.entries_ids]
  · exact List.mem_flatMap.mpr ⟨seg, hseg, List.mem_map.mpr ⟨(r, o), hr, rfl⟩⟩

/-- A durable record is not in the batch in hand. -/
theorem Inv.indexed_of_durable (h : Inv crc origin Base s L)
    (hnd : (L.records.map WalRecord.id).Nodup) (hr : L.Durable r) :
    r.id ∉ s.pc.unindexed.2.map Prod.fst := by
  obtain ⟨seg, hseg, o, ho, hsync⟩ := hr
  intro hmem
  obtain ⟨loc, hloc, hlook⟩ := exists_lookup_insertAll hmem s.index
  rw [h.lookup_all hnd hseg ho, Option.some.injEq] at hlook
  subst hlook
  obtain ⟨hseq, hle⟩ := h.index.offsets _ hloc
  obtain rfl := h.seg_unique hseg L.active_mem hseq
  have := r.le_size
  have : L.active.synced ≤ o := hle
  omega

theorem Inv.lookup (h : Inv crc origin Base s L) (hnd : (L.records.map WalRecord.id).Nodup)
    (hseg : seg ∈ L.segs) {o : Nat} (hr : (r, o) ∈ located seg.base.length seg.records)
    (hnot : r.id ∉ s.pc.unindexed.2.map Prod.fst) : s.index.lookup r.id = some ⟨seg.seq, o⟩ := by
  rw [← h.lookup_all hnd hseg hr, lookup_insertAll_of_notMem hnot]

theorem Inv.onDisk (h : Inv crc origin Base s L) (hnd : (L.records.map WalRecord.id).Nodup)
    (hr : L.Durable r) : OnDisk crc s r := by
  have hnot := h.indexed_of_durable hnd hr
  obtain ⟨seg, hseg, o, ho, hsync⟩ := hr
  exact ⟨⟨seg.seq, o⟩, ⟨seg.bytes crc, seg.synced⟩, h.lookup hnd hseg ho hnot,
    h.mem_files hseg, Seg.encodeRecord_isPrefix crc ho, hsync⟩

/-- The invariant after any run of an opened log. -/
theorem opened_run_inv {config : WalConfig} {path : WalPath} {o : Opened}
    (hopen : openWithConfig crc config path = .ok o) {synced : Nat → Nat} {as : List Action}
    (hrun : run (step crc) (o.start config synced) as = some s) :
    ∃ origin L, Inv crc origin (fun _ => True) s L ∧ origin.records = [] := by
  obtain ⟨front, bytes, hfiles, hoff⟩ := openWithConfig_tail hopen
  have hstart := @Opened.start_inv crc (fun _ => True) o front bytes hfiles hoff
    (openWithConfig_nextId_lt hopen) (fun _ _ => trivial) trivial config synced
  obtain ⟨L, h⟩ := run_inv hstart trivial hrun
  exact ⟨_, L, h, rfl⟩

/-- Room for one small record per segment. -/
def tinyConfig : WalConfig := ⟨none, none, 8, 64⟩

/-- A fresh log. -/
def freshLog : Opened := ⟨Dir.empty.insert 1 segmentHeader, ∅, 1, 1, headerLen⟩

theorem open_empty : openWithConfig Crc32.crc32 tinyConfig (.directory .empty) = .ok freshLog := rfl

/-- One durable append, acknowledged. -/
def oneAppendRun : List Action :=
  [.buildRequest [7] true, .sendRequest 0, .recv 0, .writeBatch .ok, .indexBatch 0, .flushFile .ok]

/-- Two durable appends, the second of which rolls to a new segment, and a flush. -/
def twoSegmentRun : List Action :=
  [.buildRequest [7, 7, 7, 7, 7, 7, 7, 7] true, .sendRequest 0, .recv 0, .writeBatch .ok,
    .indexBatch 0, .flushFile .ok, .buildRequest [9] true, .sendRequest 0, .sendFlush, .recv 1,
    .flushFile .ok, .createSegment .ok, .writeHeader .ok, .syncHeader .ok, .writeBatch .ok,
    .indexBatch 0, .flushFile .ok, .flushFile .ok]

end BlipMQ.Wal
