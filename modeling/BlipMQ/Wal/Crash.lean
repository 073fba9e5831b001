import BlipMQ.Wal.Durability
import BlipMQ.Wal.Recovered

/-!
# WAL — reopening after a crash

A crash leaves of each segment file some prefix of its bytes that includes
all synced ones. Records at the end of a file may be cut; the reader takes
a cut record for the end of the file. A cut segment header is taken for
corruption, and that is the only way such a directory fails to open.
-/

namespace BlipMQ.Wal

/-- The directory a crash leaves: of file `seq`, the synced bytes and at least
`cut seq` of the others. -/
def State.crashImage (s : State) (cut : Nat → Nat) : Dir Bytes :=
  s.dir.map fun seq f => f.bytes.take (max f.synced (cut seq))

/-! ## Cut records -/

/-- The records that lie completely in the first `n` bytes. -/
def wholeRecords : Nat → List WalRecord → List WalRecord
  | _, [] => []
  | n, r :: rs => if r.size ≤ n then r :: wholeRecords (n - r.size) rs else []

theorem wholeRecords_isPrefix (n : Nat) (rs : List WalRecord) : wholeRecords n rs <+: rs := by
  induction rs generalizing n with
  | nil => exact List.prefix_refl _
  | cons r rs ih =>
    rw [wholeRecords]
    split
    · exact List.prefix_cons_inj r |>.mpr (ih _)
    · exact List.nil_prefix

theorem mem_located_wholeRecords {n offset o : Nat} {rs : List WalRecord} {r : WalRecord}
    (hr : (r, o) ∈ located offset rs) (hn : o + r.size ≤ offset + n) :
    (r, o) ∈ located offset (wholeRecords n rs) := by
  induction rs generalizing n offset with
  | nil => simp [located] at hr
  | cons a rs ih =>
    simp only [located, List.mem_cons, Prod.mk.injEq] at hr
    by_cases ha : a.size ≤ n
    · rw [wholeRecords, if_pos ha, located]
      rcases hr with ⟨rfl, rfl⟩ | hr
      · exact List.mem_cons_self
      · exact List.mem_cons_of_mem _ (ih hr (by omega))
    · -- the first record is cut already, and all others start behind it
      exfalso
      rcases hr with ⟨rfl, rfl⟩ | hr
      · omega
      · obtain ⟨front, back, -, rfl⟩ := mem_located.mp hr
        omega

section Crash

variable {crc : Bytes → UInt32}

/-- Behind the whole records, the reader takes what is left for the end. -/
theorem take_encodeRecords {rs : List WalRecord} (h : ∀ r ∈ rs, r.Fits) (n : Nat) :
    ∃ torn, (encodeRecords crc rs).take n = encodeRecords crc (wholeRecords n rs) ++ torn ∧
      ∀ offset, readNextRecordWithOffset crc torn offset = .ok none := by
  induction rs generalizing n with
  | nil => exact ⟨[], by simp [wholeRecords], readNext_short (by decide)⟩
  | cons r rs ih =>
    by_cases hr : r.size ≤ n
    · obtain ⟨torn, htake, hends⟩ := ih (fun x hx => h x (by simp [hx])) (n - r.size)
      refine ⟨torn, ?_, hends⟩
      rw [wholeRecords, if_pos hr, encodeRecords_cons, encodeRecords_cons, List.take_append,
        encodeRecord_length, htake, List.append_assoc,
        List.take_of_length_le (by rw [encodeRecord_length]; exact hr)]
    · refine ⟨(encodeRecord crc r).take n, ?_, fun offset => readNext_torn ?_ offset⟩
      · rw [wholeRecords, if_neg hr, encodeRecords_cons,
          List.take_append_of_le_length (by rw [encodeRecord_length]; omega)]
        rfl
      · refine ⟨r, h r (by simp), List.take_prefix _ _, ?_⟩
        rw [List.length_take, encodeRecord_length]
        omega

/-- A segment file cut at `n` bytes, behind its header, stores its whole records. -/
theorem exists_stored_of_take {rs : List WalRecord} (h : ∀ r ∈ rs, r.Fits) {n : Nat}
    (hn : headerLen ≤ n) (seq : Nat) :
    ∃ seg : StoredSegment, seg.WellFormed crc ∧
      seg.file crc = (seq, (segmentHeader ++ encodeRecords crc rs).take n) ∧
      seg.seq = seq ∧ seg.records = wholeRecords (n - headerLen) rs := by
  obtain ⟨torn, htake, hends⟩ := @take_encodeRecords crc _ h (n - headerLen)
  refine ⟨⟨seq, wholeRecords (n - headerLen) rs, torn⟩, ⟨?_, hends⟩, ?_, rfl, rfl⟩
  · exact fun r hr => h r ((wholeRecords_isPrefix _ _).subset hr)
  · rw [StoredSegment.file, List.take_append, segmentHeader_length, htake,
      List.take_of_length_le (by rw [segmentHeader_length]; exact hn)]

/-- A segment file as a crash leaves it: number, records written to it, and
the number of bytes that are left. -/
structure CutFile where
  seq : Nat
  records : List WalRecord
  left : Nat

def CutFile.file (crc : Bytes → UInt32) (c : CutFile) : Nat × Bytes :=
  (c.seq, (segmentHeader ++ encodeRecords crc c.records).take c.left)

/-- Cut files with whole headers store the records that are left whole. -/
theorem exists_stored_of_cut {cuts : List CutFile}
    (hfits : ∀ c ∈ cuts, ∀ r ∈ c.records, r.Fits) (hleft : ∀ c ∈ cuts, headerLen ≤ c.left) :
    ∃ segs : List StoredSegment, segs.map (StoredSegment.file crc) = cuts.map (CutFile.file crc) ∧
      (∀ seg ∈ segs, seg.WellFormed crc) ∧
      (allRecords segs).Sublist (cuts.flatMap CutFile.records) ∧
      ∀ c ∈ cuts, ∀ r o, (r, o) ∈ located headerLen c.records → o + r.size ≤ c.left →
        (r.id, RecordLocation.mk c.seq o) ∈ allEntries segs := by
  induction cuts with
  | nil => exact ⟨[], rfl, nofun, List.Sublist.refl _, nofun⟩
  | cons c cuts ih =>
    obtain ⟨segs, hfiles, hwf, hsub, hmem⟩ :=
      ih (fun x hx => hfits x (by simp [hx])) (fun x hx => hleft x (by simp [hx]))
    have hc := hleft c (by simp)
    obtain ⟨seg, hseg, hfile, hseq, hrecords⟩ :=
      @exists_stored_of_take crc _ (hfits c (by simp)) _ hc c.seq
    refine ⟨seg :: segs, ?_, ?_, ?_, ?_⟩
    · rw [List.map_cons, List.map_cons, hfiles, hfile]
      rfl
    · intro x hx
      rcases List.mem_cons.mp hx with rfl | hx
      · exact hseg
      · exact hwf x hx
    · show (seg.records ++ allRecords segs).Sublist (c.records ++ cuts.flatMap CutFile.records)
      rw [hrecords]
      exact (wholeRecords_isPrefix _ _).sublist.append hsub
    · intro x hx r o hr hle
      show _ ∈ seg.entries ++ allEntries segs
      rcases List.mem_cons.mp hx with rfl | hx
      · refine List.mem_append_left _ (List.mem_map.mpr ⟨(r, o), ?_, by rw [hseq]⟩)
        rw [hrecords]
        exact mem_located_wholeRecords hr (by omega)
      · exact List.mem_append_right _ (hmem x hx r o hr hle)

/-! ## The directory a crash leaves -/

variable {origin : Origin} {s : State} {L : Layout}

/-- What a crash leaves of a file. -/
def cutBytes (cut : Nat → Nat) (p : Nat × SegFile) : Nat × Bytes :=
  (p.1, p.2.bytes.take (max p.2.synced (cut p.1)))

/-- The cut files of a layout whose last write was `written` bytes of `batch`. -/
def Layout.cutFiles (cut : Nat → Nat) (batch : List WalRecord) (written : Nat) (L : Layout) :
    List CutFile :=
  (L.closed.map fun seg => ⟨seg.seq, seg.records, max seg.synced (cut seg.seq)⟩) ++
    ⟨L.active.seq, L.active.records ++ batch,
      min (max L.active.synced (cut L.active.seq)) (L.active.stop + written)⟩ ::
    L.stray.map fun p => ⟨p.1, [], headerLen⟩

theorem cutBytes_closed {seg : Seg} (hbase : seg.base = segmentHeader) (htail : seg.tail = [])
    (cut : Nat → Nat) :
    cutBytes cut (seg.file crc) =
      CutFile.file crc ⟨seg.seq, seg.records, max seg.synced (cut seg.seq)⟩ := by
  simp only [cutBytes, Seg.file, Seg.bytes, hbase, htail, List.append_nil, CutFile.file]

theorem cutBytes_active {seg : Seg} {batch : List WalRecord} {written : Nat}
    (hbase : seg.base = segmentHeader) (htail : seg.tail = (encodeRecords crc batch).take written)
    (cut : Nat → Nat) :
    cutBytes cut (seg.file crc) =
      CutFile.file crc ⟨seg.seq, seg.records ++ batch,
        min (max seg.synced (cut seg.seq)) (seg.stop + written)⟩ := by
  have hstop : seg.stop = (segmentHeader ++ encodeRecords crc seg.records).length := by
    simp [Seg.stop, hbase]
  have hbytes : seg.bytes crc =
      (segmentHeader ++ encodeRecords crc (seg.records ++ batch)).take (seg.stop + written) := by
    rw [Seg.bytes, hbase, htail, encodeRecords_append, ← List.append_assoc, hstop,
      List.take_length_add_append]
  show (seg.seq, (seg.bytes crc).take _) = _
  rw [hbytes, List.take_take]
  rfl

variable {cut : Nat → Nat}

/-- A half-made segment with a whole header is an empty segment. -/
theorem cutBytes_stray {seq n : Nat}
    (h : headerLen ≤ (cutBytes cut (seq, ⟨segmentHeader.take n, 0⟩)).2.length) :
    cutBytes cut (seq, ⟨segmentHeader.take n, 0⟩) = CutFile.file crc ⟨seq, [], headerLen⟩ := by
  simp only [cutBytes, List.take_take, List.length_take, segmentHeader_length] at h
  simp only [cutBytes, CutFile.file, encodeRecords_nil, List.append_nil, List.take_take]
  rw [List.take_of_length_le (by rw [segmentHeader_length]; omega),
    List.take_of_length_le (by rw [segmentHeader_length])]

theorem Inv.crashImage_files (hi : Inv crc origin (· = segmentHeader) s L)
    (htails : ∀ seg ∈ L.segs, (origin.fileOf seg.seq).drop seg.stop = [])
    (hlen : ∀ p ∈ (s.crashImage cut).files, headerLen ≤ p.2.length) {batch : List WalRecord}
    {written : Nat} (htail : L.active.tail = (encodeRecords crc batch).take written) :
    (s.crashImage cut).files = (L.cutFiles cut batch written).map (CutFile.file crc) := by
  have himage : (s.crashImage cut).files =
      (L.closed.map (Seg.file crc) ++ [L.active.file crc] ++ L.stray).map (cutBytes cut) := by
    rw [← L.files_eq, ← hi.disk.files]
    rfl
  rw [himage] at hlen ⊢
  simp only [Layout.cutFiles, List.map_append, List.map_cons, List.map_map,
    List.append_assoc, List.singleton_append]
  congr 1
  · refine List.map_congr_left fun seg hseg => cutBytes_closed ?_ ?_ cut
    · exact hi.disk.base seg (Layout.mem_segs.mpr (.inl hseg))
    · exact (hi.disk.tails seg hseg).trans (htails seg (Layout.mem_segs.mpr (.inl hseg)))
  · congr 1
    · exact cutBytes_active (hi.disk.base _ L.active_mem) htail cut
    · refine List.map_congr_left fun p hp => ?_
      have hp' := hlen (cutBytes cut p) (List.mem_map_of_mem (List.mem_append_right _ hp))
      rcases hi.disk.stray.cases with hnil | ⟨n, hone⟩
      · rw [hnil] at hp
        cases hp
      · rw [hone] at hp
        obtain rfl := List.mem_singleton.mp hp
        exact cutBytes_stray hp'

/-- **The directory after a crash**, if no segment header is cut, stores
records that were received, among them all that lie in a synced part. -/
theorem Inv.crashImage_stored (hi : Inv crc origin (· = segmentHeader) s L)
    (htails : ∀ seg ∈ L.segs, (origin.fileOf seg.seq).drop seg.stop = [])
    (hlen : ∀ p ∈ (s.crashImage cut).files, headerLen ≤ p.2.length) :
    ∃ segs : List StoredSegment, (s.crashImage cut).files = segs.map (StoredSegment.file crc) ∧
      (∀ seg ∈ segs, seg.WellFormed crc) ∧
      (allRecords segs).Sublist (origin.records ++ s.received) ∧
      ∀ seg ∈ L.segs, ∀ r o, (r, o) ∈ located headerLen seg.records → o + r.size ≤ seg.synced →
        (r.id, RecordLocation.mk seg.seq o) ∈ allEntries segs := by
  obtain ⟨batch, written, hpre, htail⟩ := hi.log.torn
  rw [htails L.active L.active_mem, List.drop_nil, List.append_nil] at htail
  have hfiles := hi.crashImage_files htails hlen htail
  have hall : (L.cutFiles cut batch written).flatMap CutFile.records = L.records ++ batch := by
    simp [Layout.cutFiles, Layout.records_eq, List.flatMap_map]
  have hfits : ∀ c ∈ L.cutFiles cut batch written, ∀ r ∈ c.records, r.Fits := by
    intro c hc r hr
    refine hi.fits r (hpre.subset ?_)
    rw [← hall]
    exact List.mem_flatMap.mpr ⟨c, hc, hr⟩
  have hleft : ∀ c ∈ L.cutFiles cut batch written, headerLen ≤ c.left := by
    intro c hc
    have hlen' := hlen (c.file crc) (by rw [hfiles]; exact List.mem_map_of_mem hc)
    simp only [CutFile.file, List.length_take] at hlen'
    omega
  obtain ⟨segs, hsegs, hwf, hsub, hmem⟩ := @exists_stored_of_cut crc _ hfits hleft
  rw [hall] at hsub
  refine ⟨segs, hfiles.trans hsegs.symm, hwf, hsub.trans hpre.sublist, ?_⟩
  intro seg hseg r o hr hle
  rcases Layout.mem_segs.mp hseg with hclosed | rfl
  · refine hmem _ (List.mem_append_left _ (List.mem_map_of_mem hclosed)) r o hr ?_
    exact Nat.le_trans hle (Nat.le_max_left _ _)
  · refine hmem _ (List.mem_append_right _ List.mem_cons_self) r o ?_ ?_
    · rw [located_append]
      exact List.mem_append_left _ hr
    · have hstop : o + r.size ≤ L.active.stop := Seg.located_stop (by
        rw [hi.disk.base _ L.active_mem, segmentHeader_length]; exact hr)
      show o + r.size ≤ min (max _ _) (_ + _)
      omega

/-! ## Reopening -/

/-- A record the index finds in a synced part is there in every layout that
accounts for the whole index. -/
theorem Inv.located_of_onDisk {Base : Bytes → Prop} (hi : Inv crc origin Base s L)
    (hindex : origin.index = ∅) (hnd : ((origin.records ++ s.received).map WalRecord.id).Nodup)
    {r : WalRecord} (hr : r ∈ s.received) (hnot : r.id ∉ s.pc.unindexed.2.map Prod.fst)
    (hdisk : OnDisk crc s r) :
    ∃ seg ∈ L.segs, ∃ o, (r, o) ∈ located seg.base.length seg.records ∧
      o + r.size ≤ seg.synced := by
  obtain ⟨loc, f, hlook, hfind, -, hsync⟩ := hdisk
  rw [← lookup_insertAll_of_notMem hnot, hi.index.index, hindex] at hlook
  have hmem := mem_of_lookup_insertAll_empty hlook
  obtain ⟨seg, hseg, hmem⟩ := List.mem_flatMap.mp hmem
  obtain ⟨⟨x, o⟩, hx, heq⟩ := List.mem_map.mp hmem
  obtain ⟨hid, rfl⟩ := Prod.mk.inj heq
  have hfile := hi.mem_files hseg
  rw [show s.dir.find? seg.seq = some f from hfind, Option.some.injEq] at hfile
  obtain rfl : x = r := List.inj_on_of_nodup_map hnd
    (hi.log.torn.isPrefix.subset (Layout.mem_records hseg hx)) (List.mem_append_right _ hr) hid
  rw [hfile] at hsync
  exact ⟨seg, hseg, o, hx, hsync⟩

/-- **The log reopens after a crash exactly if no segment header was cut.**
Then the index leads to every record whose durable append had returned. A
segment file that a roll has just created holds less than its header. -/
theorem reopen_after_crash_iff {config : WalConfig} {dir : Dir Bytes} {segs : List StoredSegment}
    {o : Opened} (hclean : CleanLog crc dir segs)
    (hopen : openWithConfig crc config (.directory dir) = .ok o) {synced : Nat → Nat}
    {as : List Action} (hrun : run (step crc) (o.start config synced) as = some s)
    (hids : o.nextId + s.taken ≤ 2 ^ 64) (cut : Nat → Nat) :
    (∃ o', openWithConfig crc config (.directory (s.crashImage cut)) = .ok o' ∧
      ∀ q, (q, .ok ()) ∈ s.answers → Indexed crc o'.index (s.crashImage cut) q.record) ↔
      ∀ p ∈ (s.crashImage cut).files, headerLen ≤ p.2.length := by
  obtain ⟨origin, L, hi, hindex, hrecords, hnext, htails⟩ := hclean.run_inv hopen hrun
  have hne : (s.crashImage cut).files ≠ [] := by
    simp [State.crashImage, hi.disk.files, Layout.files_eq]
  rw [openWithConfig_directory (openWithConfig_valid hopen) hne]
  constructor
  · rintro ⟨o', ho', -⟩
    cases hsegs : openSegments crc (s.crashImage cut).files (∅, 1) (0, headerLen) with
    | error e => rw [hsegs] at ho'; cases ho'
    | ok out => exact fun p hp => (openSegments_scanned hsegs p hp).1
  · intro hlen
    obtain ⟨stored, hfiles, hwf, hsub, hmem⟩ := hi.crashImage_stored htails hlen
    have hnd : ((origin.records ++ s.received).map WalRecord.id).Nodup :=
      hi.nodup_ids (hrecords ▸ hclean.nodup)
        (by rw [hrecords, hnext]; exact hclean.id_lt_nextId hopen) (by rw [hnext]; exact hids)
    rw [hfiles, openSegments_stored hwf]
    refine ⟨_, rfl, ?_⟩
    intro q hq
    -- the durable record, in the layout and then in what the crash left
    obtain ⟨origin₁, L₁, h₁, h₀⟩ := opened_run_inv hopen hrun
    have hdur : L₁.Durable q.record := (h₁.acks h₀).answers q hq
    have hreceived : q.record ∈ s.received := by
      obtain ⟨seg, hseg, x, hx, -⟩ := hdur
      have hmem := h₁.log.torn.isPrefix.subset (Layout.mem_records hseg hx)
      rwa [h₀, List.nil_append] at hmem
    have hnd₁ := h₁.nodup_records h₀ (by omega)
    obtain ⟨seg, hseg, x, hx, hsync⟩ := hi.located_of_onDisk hindex hnd hreceived
      (h₁.indexed_of_durable hnd₁ hdur) (h₁.onDisk hnd₁ hdur)
    rw [hi.disk.base seg hseg, segmentHeader_length] at hx
    obtain ⟨st, hst, r, hid, -, hr⟩ := mem_allEntries.mp (hmem seg hseg _ _ hx hsync)
    have hrmem := mem_allRecords_of_located hst hr
    obtain rfl : r = q.record := List.inj_on_of_nodup_map hnd (hsub.subset hrmem)
      (List.mem_append_right _ hreceived) hid
    exact indexed_of_stored hfiles (hnd.sublist (hsub.map _)) hrmem

/-- One durable append that returned, and a second one whose roll has created
the next segment file but not written its header yet. -/
def midRollRun : List Action :=
  [.buildRequest [7, 7, 7, 7, 7, 7, 7, 7] true, .sendRequest 0, .recv 0, .writeBatch .ok,
    .indexBatch 0, .flushFile .ok, .buildRequest [9] true, .sendRequest 0, .recv 0, .flushFile .ok,
    .createSegment .ok]

theorem reopen_after_crash_iff_two_segments :
    ∃ s, run (step Crc32.crc32) (freshLog.start tinyConfig fun _ => headerLen) twoSegmentRun =
        some s ∧
      ∃ o', openWithConfig Crc32.crc32 tinyConfig (.directory (s.crashImage fun _ => 0)) = .ok o' ∧
        ∀ q, (q, .ok ()) ∈ s.answers →
          Indexed Crc32.crc32 o'.index (s.crashImage fun _ => 0) q.record := by
  obtain ⟨s, hs, hids, hlens⟩ : ∃ s, run (step Crc32.crc32)
      (freshLog.start tinyConfig fun _ => headerLen) twoSegmentRun = some s ∧
        freshLog.nextId + s.taken ≤ 2 ^ 64 ∧
        ∀ p ∈ (s.crashImage fun _ => 0).files, headerLen ≤ p.2.length := by decide +kernel
  exact ⟨s, hs, (reopen_after_crash_iff (cleanLog_empty _) open_empty hs hids fun _ => 0).mpr hlens⟩

/-- A crash right after a roll has created its file: the log, with a record
that was acknowledged as durable, does not open any more. -/
theorem not_reopen_mid_roll :
    ∃ s, run (step Crc32.crc32) (freshLog.start tinyConfig fun _ => headerLen) midRollRun =
        some s ∧
      (⟨⟨1, [7, 7, 7, 7, 7, 7, 7, 7]⟩, true⟩, .ok ()) ∈ s.answers ∧
      openWithConfig Crc32.crc32 tinyConfig (.directory (s.crashImage fun _ => 0)) =
        .error (.corruption "unexpected EOF while reading WAL header") := by
  decide +kernel

end Crash

end BlipMQ.Wal
