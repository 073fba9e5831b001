import BlipMQ.Wal.Sessions

/-!
# WAL — the sizes of segments

`write_batch` decides for each batch whether it still goes to the active
segment: it rolls if the segment has records and the batch would push it
past `segment_bytes`. The offset it decides by is carried across batches
and rolls, and found again when the log is reopened. Here the batches
written so far, each with the number of its segment, stand beside the
files.
-/

namespace BlipMQ.Wal

/-! ## The batches of a log -/

/-- A batch that has been written, and the segment it went to. -/
structure WrittenBatch where
  seq : Nat
  records : List WalRecord
  deriving DecidableEq, Repr

/-- The batches of one segment, in the order they were written. -/
def batchesIn (batches : List WrittenBatch) (seq : Nat) : List (List WalRecord) :=
  (batches.filter fun b => b.seq = seq).map WrittenBatch.records

def writtenTo (batches : List WrittenBatch) (seq : Nat) : List WalRecord :=
  (batchesIn batches seq).flatten

/-- Batches in segments `1` to `last`: none is empty, every segment before the last has
one, and a segment that is too long has just one. -/
structure Batched (segmentBytes : Nat) (batches : List WrittenBatch) (last : Nat) : Prop where
  records : ∀ b ∈ batches, b.records ≠ [] ∧ ∀ r ∈ b.records, r.Fits
  numbered : ∀ b ∈ batches, 1 ≤ b.seq ∧ b.seq ≤ last
  closed : ∀ seq, 1 ≤ seq → seq < last → batchesIn batches seq ≠ []
  long : ∀ seq, segmentBytes < headerLen + sizeAll (writtenTo batches seq) →
    (batchesIn batches seq).length = 1

section Batches

variable {segmentBytes last : Nat} {batches : List WrittenBatch}

theorem batchesIn_append (batches more : List WrittenBatch) (seq : Nat) :
    batchesIn (batches ++ more) seq = batchesIn batches seq ++ batchesIn more seq := by
  simp [batchesIn]

theorem batchesIn_singleton_self (seq : Nat) (rs : List WalRecord) :
    batchesIn [⟨seq, rs⟩] seq = [rs] := by
  simp [batchesIn]

theorem batchesIn_singleton_of_ne {seq q : Nat} (h : seq ≠ q) (rs : List WalRecord) :
    batchesIn [⟨seq, rs⟩] q = [] := by
  simp [batchesIn, h]

theorem mem_batchesIn {seq : Nat} {rs : List WalRecord} :
    rs ∈ batchesIn batches seq ↔ ⟨seq, rs⟩ ∈ batches := by
  simp only [batchesIn, List.mem_map, List.mem_filter, decide_eq_true_eq]
  constructor
  · rintro ⟨b, ⟨hb, rfl⟩, rfl⟩
    exact hb
  · intro h
    exact ⟨_, ⟨h, rfl⟩, rfl⟩

theorem eq_nil_of_sizeAll_eq_zero {rs : List WalRecord} (h : sizeAll rs = 0) : rs = [] := by
  cases rs with
  | nil => rfl
  | cons r rs =>
    have := r.le_size
    rw [sizeAll_cons] at h
    omega

namespace Batched

variable {seq : Nat}

theorem writtenTo_eq_nil (h : Batched segmentBytes batches last) :
    writtenTo batches seq = [] ↔ batchesIn batches seq = [] := by
  constructor
  · intro hnil
    refine List.eq_nil_iff_forall_not_mem.mpr fun rs hrs => ?_
    exact (h.records _ (mem_batchesIn.mp hrs)).1 (List.flatten_eq_nil_iff.mp hnil rs hrs)
  · intro hnil
    rw [writtenTo, hnil]
    rfl

theorem fits (h : Batched segmentBytes batches last) : ∀ r ∈ writtenTo batches seq, r.Fits := by
  intro r hr
  obtain ⟨rs, hrs, hr⟩ := List.mem_flatten.mp hr
  exact (h.records _ (mem_batchesIn.mp hrs)).2 r hr

/-- Nothing is written behind the last segment. -/
theorem batchesIn_of_gt (h : Batched segmentBytes batches last) (hgt : last < seq) :
    batchesIn batches seq = [] := by
  refine List.eq_nil_iff_forall_not_mem.mpr fun rs hrs => ?_
  have hle := (h.numbered _ (mem_batchesIn.mp hrs)).2
  dsimp only at hle
  omega

theorem none (hsize : headerLen ≤ segmentBytes) (hlast : last ≤ 1) :
    Batched segmentBytes [] last where
  records := List.forall_mem_nil _
  numbered := List.forall_mem_nil _
  closed := fun seq h₁ hlt => by omega
  long := fun seq hlong => absurd hlong (Nat.not_lt.mpr hsize)

/-- A roll, away from a segment that has a batch. -/
theorem roll (h : Batched segmentBytes batches last) (hlast : batchesIn batches last ≠ []) :
    Batched segmentBytes batches (last + 1) where
  records := h.records
  numbered := fun b hb => ⟨(h.numbered b hb).1, Nat.le_succ_of_le (h.numbered b hb).2⟩
  closed := by
    intro seq h₁ hlt
    rcases Nat.lt_succ_iff_lt_or_eq.mp hlt with hlt | rfl
    · exact h.closed seq h₁ hlt
    · exact hlast
  long := h.long

/-- A batch goes to the last segment if that has none yet, or has room for it. -/
theorem write (h : Batched segmentBytes batches last) (hfirst : 1 ≤ last) {rs : List WalRecord}
    (hne : rs ≠ []) (hfits : ∀ r ∈ rs, r.Fits)
    (hroom : batchesIn batches last = [] ∨
      headerLen + sizeAll (writtenTo batches last) + sizeAll rs ≤ segmentBytes) :
    Batched segmentBytes (batches ++ [⟨last, rs⟩]) last where
  records := forall_mem_concat h.records ⟨hne, hfits⟩
  numbered := forall_mem_concat h.numbered ⟨hfirst, Nat.le_refl _⟩
  closed := by
    intro seq h₁ hlt hnil
    rw [batchesIn_append, List.append_eq_nil_iff] at hnil
    exact h.closed seq h₁ hlt hnil.1
  long := by
    intro seq hlong
    by_cases hseq : last = seq
    · subst hseq
      rw [writtenTo, batchesIn_append, batchesIn_singleton_self] at hlong
      rw [batchesIn_append, batchesIn_singleton_self]
      rcases hroom with hnil | hroom
      · rw [hnil]
        rfl
      · -- with room there is no segment that is too long
        rw [List.flatten_append, sizeAll_append, List.flatten_singleton] at hlong
        unfold writtenTo at hroom
        omega
    · rw [writtenTo, batchesIn_append, batchesIn_singleton_of_ne hseq, List.append_nil] at hlong
      rw [batchesIn_append, batchesIn_singleton_of_ne hseq, List.append_nil]
      exact h.long seq hlong

end Batched

end Batches

/-! ## The running log -/

/-- What a step writes. -/
def writtenBatch (s : State) : Action → List WrittenBatch
  | .writeBatch .ok =>
    match s.pc with
    | .write batch _ => [⟨s.currentSegmentSeq, batchRecords batch⟩]
    | _ => []
  | _ => []

/-- The file of the next segment is there, and the writer has not moved to it. -/
def Pc.nextMade : Pc → Bool
  | .rollHeader _ _ | .rollHeaderSync _ _ => true
  | _ => false

def State.lastFile (s : State) : Nat :=
  if s.pc.nextMade then s.currentSegmentSeq + 1 else s.currentSegmentSeq

/-- What the roll test has established: a roll leaves a segment with records, and a
batch is written where it has room or to a segment without records. -/
def State.Decided (s : State) : Prop :=
  match s.pc with
  | .rollFlush batch _ | .rollCreate batch _ | .rollHeader batch _ | .rollHeaderSync batch _ =>
    batch ≠ [] ∧ headerLen < s.currentOffset
  | .write batch _ => batch ≠ [] ∧ (s.currentOffset ≤ headerLen ∨
      s.currentOffset + sizeAll (batchRecords batch) ≤ s.config.segmentBytes)
  | _ => True

/-- The file of a segment with these batches. -/
def segmentFile (crc : Bytes → UInt32) (batches : List WrittenBatch) (seq : Nat) : Bytes :=
  segmentHeader ++ encodeRecords crc (writtenTo batches seq)

/-- The files spell out the batches, and the cursor stands behind the last of them. -/
structure Sized (crc : Bytes → UInt32) (segmentBytes : Nat) (batches : List WrittenBatch)
    (s : State) : Prop where
  config : s.config.segmentBytes = segmentBytes
  batched : Batched segmentBytes batches s.currentSegmentSeq
  first : 1 ≤ s.currentSegmentSeq
  seqs : s.contents.seqs = List.range' 1 s.lastFile
  files : ∀ seq bytes, s.contents.find? seq = some bytes → seq ≤ s.currentSegmentSeq →
    bytes = segmentFile crc batches seq
  fileSeq : s.fileSeq = s.currentSegmentSeq
  filePos : s.filePos = headerLen + sizeAll (writtenTo batches s.currentSegmentSeq)
  currentOffset : s.currentOffset = headerLen + sizeAll (writtenTo batches s.currentSegmentSeq)
  decided : s.Decided

section Steps

variable {crc : Bytes → UInt32} {segmentBytes first : Nat} {batches : List WrittenBatch}
  {s s' : State}

/-- Steps that leave the files and the cursor where they are. -/
theorem Sized.congr (h : Sized crc segmentBytes batches s) (hconfig : s'.config = s.config)
    (hcontents : s'.contents = s.contents) (hseq : s'.currentSegmentSeq = s.currentSegmentSeq)
    (hfileSeq : s'.fileSeq = s.fileSeq) (hpos : s'.filePos = s.filePos)
    (hoffset : s'.currentOffset = s.currentOffset) (hmade : s'.pc.nextMade = s.pc.nextMade)
    (hdecided : s'.Decided) : Sized crc segmentBytes batches s' where
  config := by rw [hconfig, h.config]
  batched := by rw [hseq]; exact h.batched
  first := by rw [hseq]; exact h.first
  seqs := by rw [hcontents, State.lastFile, hmade, hseq]; exact h.seqs
  files := by rw [hcontents, hseq]; exact h.files
  fileSeq := by rw [hfileSeq, hseq]; exact h.fileSeq
  filePos := by rw [hpos, hseq]; exact h.filePos
  currentOffset := by rw [hoffset, hseq]; exact h.currentOffset
  decided := hdecided

/-- `flush` and `sync_data` as a reader of the directory sees them. -/
theorem contents_syncData {seq : Nat} (hdir : s'.dir = s.dir.modify seq SegFile.syncData) :
    s'.contents = s.contents := by
  have hsame : ∀ f : SegFile, f.syncData.bytes = (fun b : Bytes => b) f.bytes := fun _ => rfl
  rw [State.contents, hdir]
  exact (Dir.map_modify hsame s.dir seq).trans (Dir.modify_self _ _)

/-- `write_all` as a reader of the directory sees it. -/
theorem contents_writeAll {seq pos : Nat} {data : Bytes}
    (hdir : s'.dir = s.dir.modify seq fun f => f.writeAll pos data) :
    s'.contents = s.contents.modify seq fun b => writeAt b pos data := by
  have hwrite : ∀ f : SegFile, (f.writeAll pos data).bytes =
      (fun b => writeAt b pos data) f.bytes := fun _ => rfl
  rw [State.contents, hdir]
  exact Dir.map_modify hwrite s.dir seq

variable {batch : List WalWriteRequest}

theorem Sized.recvBatch (h : Sized crc segmentBytes batches s) (hpc : s.pc = .idle)
    (hne : batch ≠ []) (flush : Bool) {channel : List WalMessage} {received : List WalRecord} :
    Sized crc segmentBytes batches { s with
      channel := channel, received := received
      pc := if s.mustRoll batch then .rollFlush batch flush else .write batch flush } := by
  have hmade : s.pc.nextMade = false := by rw [hpc]; rfl
  cases hroll : s.mustRoll batch with
  | true =>
    rw [State.mustRoll, Bool.and_eq_true, decide_eq_true_eq] at hroll
    exact h.congr rfl rfl rfl rfl rfl rfl (by rw [hmade]; rfl) ⟨hne, hroll.1⟩
  | false =>
    rw [State.mustRoll, Bool.and_eq_false_iff, decide_eq_false_iff_not,
      decide_eq_false_iff_not, Nat.not_lt, Nat.not_lt] at hroll
    exact h.congr rfl rfl rfl rfl rfl rfl (by rw [hmade]; rfl) ⟨hne, hroll⟩

/-- A `flush_file` that does not end the task. -/
theorem Sized.flushed (h : Sized crc segmentBytes batches s) (result : IoResult) {pc : Pc}
    (hpc : s' = { s.flushFile result with pc := pc, flushAnswers := s'.flushAnswers })
    (hmade : pc.nextMade = s.pc.nextMade) (hdecided : s'.Decided) :
    Sized crc segmentBytes batches s' := by
  have hcontents : s'.contents = s.contents := by
    rw [hpc]
    cases result with
    | ok => exact contents_syncData rfl
    | failed reason => rfl
  cases result <;> exact h.congr (by rw [hpc]; rfl) hcontents (by rw [hpc]; rfl) (by rw [hpc]; rfl)
    (by rw [hpc]; rfl) (by rw [hpc]; rfl) (by rw [hpc]; exact hmade) hdecided

theorem Sized.create (h : Sized crc segmentBytes batches s) {flush : Bool}
    (hpc : s.pc = .rollCreate batch flush) {dir : Dir SegFile}
    (hcreate : s.dir.create (s.currentSegmentSeq + 1) ⟨[], 0⟩ = some dir) :
    Sized crc segmentBytes batches { s with dir := dir, pc := .rollHeader batch flush } := by
  have hseqs := h.seqs
  rw [State.lastFile, hpc] at hseqs
  replace hseqs : s.contents.seqs = List.range' 1 s.currentSegmentSeq := hseqs
  have hgt : ∀ p ∈ s.dir.files, p.1 < s.currentSegmentSeq + 1 := by
    intro p hp
    have hmem : p.1 ∈ s.contents.seqs := by
      rw [State.contents, Dir.seqs_map]
      exact List.mem_map_of_mem hp
    rw [hseqs, List.mem_range'_1] at hmem
    omega
  rw [Dir.create_eq_of_gt hgt] at hcreate
  cases hcreate
  have hfiles : ((s.dir.insert (s.currentSegmentSeq + 1) ⟨[], 0⟩).map
      fun _ f => f.bytes).files = s.contents.files ++ [(s.currentSegmentSeq + 1, [])] := by
    rw [Dir.map_files, Dir.insert_files_of_gt hgt, List.map_append]
    rfl
  have hdecided := h.decided
  rw [State.Decided, hpc] at hdecided
  refine ⟨h.config, h.batched, h.first, ?_, ?_, h.fileSeq, h.filePos, h.currentOffset,
    hdecided⟩
  · show Dir.seqs (Dir.map _ _) = List.range' 1 (s.currentSegmentSeq + 1)
    rw [Dir.seqs, hfiles, List.map_append, List.range'_1_concat]
    rw [Dir.seqs] at hseqs
    rw [hseqs, Nat.add_comm 1]
    rfl
  · intro seq bytes hfind hle
    rw [Dir.find?_eq_some] at hfind
    replace hfind := hfiles ▸ hfind
    rcases List.mem_append.mp hfind with hfind | hfind
    · exact h.files seq bytes (Dir.find?_eq_some.mpr hfind) hle
    · have hseq : seq = s.currentSegmentSeq + 1 :=
        congrArg Prod.fst (List.mem_singleton.mp hfind)
      have hle' : seq ≤ s.currentSegmentSeq := hle
      omega

theorem Sized.writeHeader (h : Sized crc segmentBytes batches s) {flush : Bool}
    (hpc : s.pc = .rollHeader batch flush) (hs' : s' = { s with
      dir := s.dir.modify (s.currentSegmentSeq + 1) fun f => f.writeAll 0 segmentHeader
      pc := .rollHeaderSync batch flush }) : Sized crc segmentBytes batches s' := by
  have hcontents : s'.contents = s.contents.modify (s.currentSegmentSeq + 1) fun b =>
      writeAt b 0 segmentHeader := contents_writeAll (by rw [hs'])
  have hseqs := h.seqs
  have hdecided := h.decided
  rw [State.lastFile, hpc] at hseqs
  rw [State.Decided, hpc] at hdecided
  subst hs'
  refine ⟨h.config, h.batched, h.first, ?_, ?_, h.fileSeq, h.filePos, h.currentOffset,
    hdecided⟩
  · rw [hcontents, Dir.seqs_modify]
    exact hseqs
  · -- only the next file changes
    intro seq bytes hfind hle
    rw [hcontents, Dir.find?_modify, Option.map_eq_some_iff] at hfind
    obtain ⟨b, hb, hbytes⟩ := hfind
    have hne : seq ≠ s.currentSegmentSeq + 1 := Nat.ne_of_lt (Nat.lt_succ_of_le hle)
    rw [if_neg hne] at hbytes
    exact hbytes ▸ h.files seq b hb hle

/-- The writer moves to the next segment. -/
theorem Sized.syncHeader (h : Sized crc segmentBytes batches s) (hsteady : Steady crc first s)
    (hs : step crc s (.syncHeader .ok) = some s') : Sized crc segmentBytes batches s' := by
  have hcontents : s'.contents = s.contents := by
    cases stepped_of_step hs with
    | caller ha => cases ha
    | moved => exact contents_syncData rfl
  cases stepped_of_step hs with
  | caller ha => cases ha
  | moved hpc =>
    have hseqs := h.seqs
    have hdecided := h.decided
    rw [State.lastFile, hpc] at hseqs
    rw [State.Decided, hpc] at hdecided
    obtain ⟨hbatch, hoffset⟩ := hdecided
    -- the segment that is left has records
    have hleft : batchesIn batches s.currentSegmentSeq ≠ [] := by
      intro hnil
      rw [h.currentOffset, h.batched.writtenTo_eq_nil.mpr hnil, sizeAll_nil, Nat.add_zero]
        at hoffset
      exact Nat.lt_irrefl _ hoffset
    have hnext : writtenTo batches (s.currentSegmentSeq + 1) = [] :=
      h.batched.writtenTo_eq_nil.mpr (h.batched.batchesIn_of_gt (Nat.lt_succ_self _))
    have hfresh : headerLen =
        headerLen + sizeAll (writtenTo batches (s.currentSegmentSeq + 1)) := by
      rw [hnext]
      rfl
    refine ⟨h.config, h.batched.roll hleft, Nat.le_add_left _ _, ?_, ?_, rfl, hfresh, hfresh,
      hbatch, .inl (Nat.le_refl _)⟩
    · rw [hcontents]
      exact hseqs
    · intro seq bytes hfind hle
      rw [hcontents] at hfind
      rcases Nat.lt_succ_iff_lt_or_eq.mp (Nat.lt_succ_of_le hle) with hlt | rfl
      · exact h.files seq bytes hfind (Nat.le_of_lt_succ hlt)
      · rw [State.contents, Dir.find?_map, hsteady.find?_headed hpc] at hfind
        rw [segmentFile, hnext]
        exact (Option.some.inj hfind).symm.trans (List.append_nil _).symm

/-- A batch is written behind the others of its segment. -/
theorem Sized.writeBatch (h : Sized crc segmentBytes batches s) (hsteady : Steady crc first s)
    (hs : step crc s (.writeBatch .ok) = some s') :
    Sized crc segmentBytes (batches ++ writtenBatch s (.writeBatch .ok)) s' := by
  have hcontents (batch flush) (hpc : s.pc = .write batch flush) :
      s'.contents = s.contents.modify s.fileSeq fun b =>
        writeAt b s.filePos (encodeRecords crc (batchRecords batch)) := by
    cases stepped_of_step hs with
    | caller ha => cases ha
    | wrote hpc' =>
      cases hpc.symm.trans hpc'
      exact contents_writeAll rfl
  cases stepped_of_step hs with
  | caller ha => cases ha
  | @wrote batch flush hpc =>
    have hwritten : writtenBatch s (.writeBatch .ok) =
        [⟨s.currentSegmentSeq, batchRecords batch⟩] := by
      simp only [writtenBatch, hpc]
    have hseqs := h.seqs
    have hdecided := h.decided
    rw [State.lastFile, hpc] at hseqs
    rw [State.Decided, hpc] at hdecided
    obtain ⟨hbatch, hroom⟩ := hdecided
    have hne : batchRecords batch ≠ [] := by simpa [batchRecords] using hbatch
    have hbatched := h.batched.write h.first hne (hsteady.batch_fits hpc) (by
      rw [h.currentOffset, h.config] at hroom
      refine hroom.imp_left fun hle => h.batched.writtenTo_eq_nil.mp ?_
      exact eq_nil_of_sizeAll_eq_zero (by omega))
    have hcur : writtenTo (batches ++ [⟨s.currentSegmentSeq, batchRecords batch⟩])
        s.currentSegmentSeq = writtenTo batches s.currentSegmentSeq ++ batchRecords batch := by
      simp [writtenTo, batchesIn_append, batchesIn_singleton_self]
    have hpos : s.filePos + (encodeRecords crc (batchRecords batch)).length = headerLen +
        sizeAll (writtenTo (batches ++ [⟨s.currentSegmentSeq, batchRecords batch⟩])
          s.currentSegmentSeq) := by
      rw [h.filePos, encodeRecords_length, hcur, sizeAll_append, Nat.add_assoc]
    have hoffset : s.currentOffset + sizeAll (batchRecords batch) = headerLen +
        sizeAll (writtenTo (batches ++ [⟨s.currentSegmentSeq, batchRecords batch⟩])
          s.currentSegmentSeq) := by
      rw [h.currentOffset, hcur, sizeAll_append, Nat.add_assoc]
    rw [hwritten]
    refine ⟨h.config, hbatched, h.first, ?_, ?_, h.fileSeq, hpos, hoffset, trivial⟩
    · rw [hcontents _ _ hpc, Dir.seqs_modify]
      exact hseqs
    · intro seq bytes hfind hle
      rw [hcontents _ _ hpc, Dir.find?_modify, Option.map_eq_some_iff] at hfind
      obtain ⟨b, hb, hbytes⟩ := hfind
      have hold := h.files seq b hb hle
      by_cases hseq : seq = s.currentSegmentSeq
      · subst hseq
        rw [if_pos h.fileSeq.symm, hold, segmentFile] at hbytes
        have hlen : s.filePos = (segmentHeader ++
            encodeRecords crc (writtenTo batches s.currentSegmentSeq)).length := by
          simp [h.filePos]
        rw [hlen, writeAt_end] at hbytes
        rw [← hbytes, segmentFile, hcur, encodeRecords_append, List.append_assoc]
      · rw [if_neg (by rw [h.fileSeq]; exact hseq)] at hbytes
        rw [← hbytes, hold, segmentFile, segmentFile, writtenTo, writtenTo, batchesIn_append,
          batchesIn_singleton_of_ne (Ne.symm hseq), List.append_nil]

/-- **One step** keeps the files and the batches together. -/
theorem Sized.step (h : s.pc ≠ .stopped → Sized crc segmentBytes batches s)
    (hsteady : Steady crc first s) {a : Action} (hs : step crc s a = some s')
    (hrun : s'.pc ≠ .stopped) : Sized crc segmentBytes (batches ++ writtenBatch s a) s' := by
  replace h := h fun hpc => hrun (step_stopped hs hpc)
  have hnothing (hs' : Sized crc segmentBytes batches s') :
      Sized crc segmentBytes (batches ++ []) s' := (List.append_nil batches).symm ▸ hs'
  have hdecided := h.decided
  cases stepped_of_step hs with
  | caller ha =>
    have hwritten : writtenBatch s a = [] := by cases a <;> first | rfl | cases ha
    rw [hwritten]
    exact hnothing (h.congr rfl rfl rfl rfl rfl rfl rfl hdecided)
  | recvBatch hpc => exact hnothing (h.recvBatch hpc (List.cons_ne_nil _ _) _)
  | recvFlush hpc => exact hnothing (h.congr rfl rfl rfl rfl rfl rfl (by rw [hpc]; rfl) trivial)
  | rollFlushed result hpc =>
    rw [State.Decided, hpc] at hdecided
    cases result with
    | ok => exact hnothing (h.flushed .ok rfl (by rw [hpc]; rfl) hdecided)
    | failed reason => exact absurd rfl hrun
  | @synced flush result hpc =>
    cases result with
    | ok => cases flush <;> exact hnothing (h.flushed .ok rfl (by rw [hpc]; rfl) trivial)
    | failed reason => exact absurd rfl hrun
  | flushed result hpc => exact hnothing (h.flushed result rfl (by rw [hpc]; rfl) trivial)
  | created hpc hcreate => exact hnothing (h.create hpc hcreate)
  | headed hpc => exact hnothing (h.writeHeader hpc rfl)
  | moved => exact hnothing (h.syncHeader hsteady hs)
  | wrote => exact h.writeBatch hsteady hs
  | notCreated | headTorn | notMoved | torn => exact absurd rfl hrun
  | @indexed batch offsets flush elapsed hpc =>
    refine hnothing ?_
    split
    · exact h.congr rfl rfl rfl rfl rfl rfl (by rw [hpc]; rfl) trivial
    · cases flush <;> exact h.congr rfl rfl rfl rfl rfl rfl (by rw [hpc]; rfl) trivial

/-- **A whole run** does, with all that is written on the way. -/
theorem Sized.run {as : List Action} (h : Sized crc segmentBytes batches s)
    (hsteady : Steady crc first s) (hrun : run (Wal.step crc) s as = some s')
    (hpc : s'.pc ≠ .stopped) :
    Sized crc segmentBytes (batches ++ outputs (Wal.step crc) writtenBatch s as) s' := by
  let P (t : State) (written : List WrittenBatch) : Prop :=
    Steady crc first t ∧ (t.pc ≠ .stopped → Sized crc segmentBytes (batches ++ written) t)
  have hstep : ∀ t written a t', P t written → (∀ w ∈ writtenBatch t a, True) →
      Wal.step crc t a = some t' → P t' (written ++ writtenBatch t a) := by
    rintro t written a t' ⟨hsteady, hsized⟩ - hs
    refine ⟨hsteady.step hs, fun hrun => ?_⟩
    rw [← List.append_assoc]
    exact Sized.step hsized hsteady hs hrun
  have hstart : P s [] := ⟨hsteady, fun _ => (List.append_nil batches).symm ▸ h⟩
  exact (run_outputs_invariant hstep hstart hrun fun _ _ => trivial).2 hpc

end Steps

/-! ## Reopening -/

/-- The log between two processes: its files, and the batches written so far. -/
structure BatchedLog where
  dir : Dir Bytes
  batches : List WrittenBatch

def BatchedLog.empty : BatchedLog := ⟨.empty, []⟩

/-- A process that opens the log, runs, and stops once its writer is idle. -/
structure CleanSession where
  config : WalConfig
  synced : Nat → Nat
  acts : List Action

def BatchedLog.session (crc : Bytes → UInt32) (b : BatchedLog) (x : CleanSession) :
    Option BatchedLog :=
  match openWithConfig crc x.config (.directory b.dir) with
  | .error _ => none
  | .ok o =>
    let s₀ := o.start x.config x.synced
    (run (step crc) s₀ x.acts).bind fun s =>
      if s.pc = .idle then
        some ⟨s.contents, b.batches ++ outputs (step crc) writtenBatch s₀ x.acts⟩
      else none

/-- The files are those of the batches. -/
def BatchedLog.Sized (crc : Bytes → UInt32) (segmentBytes : Nat) (b : BatchedLog) : Prop :=
  ∃ last, Batched segmentBytes b.batches last ∧
    b.dir.files = (List.range' 1 last).map fun seq => (seq, segmentFile crc b.batches seq)

section Reopening

variable {crc : Bytes → UInt32} {segmentBytes : Nat} {b b' : BatchedLog} {config : WalConfig}
  {o : Opened}

theorem contents_start (o : Opened) (config : WalConfig) (synced : Nat → Nat) :
    (o.start config synced).contents = o.dir := by
  refine Dir.ext_files ?_
  simp [State.contents, Opened.start, Function.comp_def]

/-- A segment as it is found in the directory. -/
def storedSegment (batches : List WrittenBatch) (seq : Nat) : StoredSegment :=
  ⟨seq, writtenTo batches seq, []⟩

theorem storedSegment_file (batches : List WrittenBatch) (seq : Nat) :
    (storedSegment batches seq).file crc = (seq, segmentFile crc batches seq) := by
  simp [StoredSegment.file, storedSegment, segmentFile]

theorem Batched.wellFormed {batches : List WrittenBatch} {last : Nat}
    (h : Batched segmentBytes batches last) (seq : Nat) :
    (storedSegment batches seq).WellFormed crc := by
  refine ⟨h.fits, readNext_short ?_⟩
  show [].length < recordHeaderLen
  decide

/-- What opening finds; an empty directory gets a first segment without records. -/
theorem BatchedLog.Sized.storedLog (h : b.Sized crc segmentBytes)
    (hconfig : config.segmentBytes = segmentBytes)
    (hopen : openWithConfig crc config (.directory b.dir) = .ok o) :
    ∃ n, Batched segmentBytes b.batches (n + 1) ∧
      StoredLog crc o ((List.range' 1 n).map (storedSegment b.batches))
        (storedSegment b.batches (n + 1)) := by
  obtain ⟨last, hbatched, hfiles⟩ := h
  have hdir : b.dir.files =
      ((List.range' 1 last).map (storedSegment b.batches)).map (StoredSegment.file crc) := by
    rw [hfiles, List.map_map]
    exact List.map_congr_left fun seq _ => (storedSegment_file _ seq).symm
  have hwf : ∀ seg ∈ (List.range' 1 last).map (storedSegment b.batches), seg.WellFormed crc := by
    intro seg hseg
    obtain ⟨seq, -, rfl⟩ := List.mem_map.mp hseg
    exact hbatched.wellFormed seq
  obtain ⟨front, tail, hlog, hsegs⟩ := storedLog_of_open hdir hwf hopen
  -- the segments that were found, with the first one if there was none
  obtain ⟨n, hn, hfound⟩ : ∃ n, Batched segmentBytes b.batches (n + 1) ∧ front ++ [tail] =
      (List.range' 1 n).map (storedSegment b.batches) ++ [storedSegment b.batches (n + 1)] := by
    cases last with
    | zero =>
      have hnone : b.batches = [] := by
        refine List.eq_nil_iff_forall_not_mem.mpr fun x hx => ?_
        have := hbatched.numbered x hx
        omega
      have hsize : headerLen ≤ segmentBytes := by
        have := (openWithConfig_valid hopen).segment
        omega
      refine ⟨0, hnone ▸ .none hsize (Nat.le_refl 1), ?_⟩
      rw [hsegs, hnone]
      rfl
    | succ n =>
      refine ⟨n, hbatched, ?_⟩
      rw [hsegs, if_neg (by simp), List.range'_1_concat, List.map_append, Nat.add_comm 1]
      rfl
  obtain ⟨rfl, htail⟩ := List.append_inj' hfound rfl
  obtain rfl := List.singleton_inj.mp htail
  exact ⟨n, hn, hlog⟩

/-- Opening finds the batches and puts the cursor behind the last of them. -/
theorem BatchedLog.Sized.opened (h : b.Sized crc segmentBytes)
    (hconfig : config.segmentBytes = segmentBytes)
    (hopen : openWithConfig crc config (.directory b.dir) = .ok o) (synced : Nat → Nat) :
    Wal.Sized crc segmentBytes b.batches (o.start config synced) := by
  obtain ⟨n, hbatched, hlog⟩ := h.storedLog hconfig hopen
  have hfiles : o.dir.files =
      (List.range' 1 (n + 1)).map fun seq => (seq, segmentFile crc b.batches seq) := by
    rw [hlog.files, List.range'_1_concat, Nat.add_comm 1]
    simp [storedSegment_file]
  have hseq : (o.start config synced).currentSegmentSeq = n + 1 := hlog.currentSeq
  have hoffset : o.currentOffset = headerLen + sizeAll (writtenTo b.batches (n + 1)) :=
    hlog.currentOffset
  refine ⟨hconfig, hseq ▸ hbatched, hseq ▸ Nat.le_add_left 1 n, ?_, ?_, rfl, hseq ▸ hoffset,
    hseq ▸ hoffset, trivial⟩
  · show _ = List.range' 1 (o.start config synced).currentSegmentSeq
    rw [contents_start, Dir.seqs, hfiles, hseq, List.map_map]
    exact List.map_id _
  · intro seq bytes hfind _
    rw [contents_start, Dir.find?_eq_some, hfiles] at hfind
    obtain ⟨q, -, heq⟩ := List.mem_map.mp hfind
    cases heq
    rfl

/-- What an idle writer leaves is a log to be opened again. -/
theorem Sized.atRest {s : State} {batches : List WrittenBatch}
    (h : Sized crc segmentBytes batches s) (hidle : s.pc = .idle) :
    BatchedLog.Sized crc segmentBytes ⟨s.contents, batches⟩ := by
  have hseqs := h.seqs
  rw [State.lastFile, hidle] at hseqs
  replace hseqs : s.contents.seqs = List.range' 1 s.currentSegmentSeq := hseqs
  refine ⟨s.currentSegmentSeq, h.batched, ?_⟩
  rw [← hseqs, Dir.seqs, List.map_map]
  refine ((List.map_congr_left ?_).trans (List.map_id _)).symm
  rintro ⟨seq, bytes⟩ hfile
  have hle : seq ≤ s.currentSegmentSeq := by
    have hmem : seq ∈ s.contents.seqs := List.mem_map_of_mem (f := Prod.fst) hfile
    rw [hseqs, List.mem_range'_1] at hmem
    omega
  exact congrArg (Prod.mk seq) (h.files seq bytes (Dir.find?_eq_some.mpr hfile) hle).symm

theorem sized_empty (crc : Bytes → UInt32) (hsize : headerLen ≤ segmentBytes) :
    BatchedLog.empty.Sized crc segmentBytes :=
  ⟨0, .none hsize (Nat.zero_le 1), rfl⟩

/-- The state of a process on such a log. -/
theorem BatchedLog.Sized.run (h : b.Sized crc segmentBytes)
    (hconfig : config.segmentBytes = segmentBytes)
    (hopen : openWithConfig crc config (.directory b.dir) = .ok o) {synced : Nat → Nat}
    {as : List Action} {s : State}
    (hrun : run (step crc) (o.start config synced) as = some s) (hpc : s.pc ≠ .stopped) :
    Wal.Sized crc segmentBytes
      (b.batches ++ outputs (step crc) writtenBatch (o.start config synced) as) s := by
  have hsteady : Steady crc o.nextId (o.start config synced) :=
    OpenedFrom.steady (r := ⟨b.dir, synced, []⟩) (openedFrom hopen)
      (openWithConfig_nextId_lt hopen) config synced
  exact (h.opened hconfig hopen synced).run hsteady hrun hpc

theorem BatchedLog.Sized.session (h : b.Sized crc segmentBytes) {x : CleanSession}
    (hconfig : x.config.segmentBytes = segmentBytes) (hs : b.session crc x = some b') :
    b'.Sized crc segmentBytes := by
  unfold BatchedLog.session at hs
  cases hopen : openWithConfig crc x.config (.directory b.dir) with
  | error e =>
    rw [hopen] at hs
    cases hs
  | ok o =>
    rw [hopen] at hs
    obtain ⟨s, hrun, hs⟩ := Option.bind_eq_some_iff.mp hs
    obtain ⟨hidle, ⟨⟩⟩ := Option.ite_none_right_eq_some.mp hs
    exact (h.run hconfig hopen hrun (by rw [hidle]; simp)).atRest hidle

theorem BatchedLog.Sized.sessions (h : b.Sized crc segmentBytes) {xs : List CleanSession}
    (hconfig : ∀ x ∈ xs, x.config.segmentBytes = segmentBytes)
    (hrun : BlipMQ.run (BatchedLog.session crc) b xs = some b') : b'.Sized crc segmentBytes := by
  induction xs generalizing b with
  | nil =>
    cases hrun
    exact h
  | cons x xs ih =>
    obtain ⟨hx, hxs⟩ := List.forall_mem_cons.mp hconfig
    obtain ⟨b₁, hs, hrest⟩ := run_cons.mp hrun
    exact ih (h.session hx hs) hxs hrest

end Reopening

/-! ## Rolls -/

/-- The number of the segment a step moves to. -/
def rolledTo (s : State) : Action → List Nat
  | .syncHeader .ok =>
    match s.pc with
    | .rollHeaderSync _ _ => [s.currentSegmentSeq + 1]
    | _ => []
  | _ => []

/-- Only the end of a roll changes the number of the active segment, to the next. -/
theorem currentSegmentSeq_step {crc : Bytes → UInt32} {s s' : State} {a : Action}
    (hs : step crc s a = some s') :
    (rolledTo s a = [] ∧ s'.currentSegmentSeq = s.currentSegmentSeq) ∨
      (rolledTo s a = [s.currentSegmentSeq + 1] ∧
        s'.currentSegmentSeq = s.currentSegmentSeq + 1) := by
  cases stepped_of_step hs with
  | moved hpc => exact .inr ⟨by simp only [rolledTo, hpc], rfl⟩
  | caller ha => exact .inl ⟨(by cases a <;> first | rfl | cases ha), rfl⟩
  | rollFlushed result | synced result | flushed result =>
    exact .inl ⟨rfl, by cases result <;> rfl⟩
  | _ => exact .inl ⟨rfl, rfl⟩

/-- The segments a run rolls to are numbered one after the other. -/
theorem rolledTo_run {crc : Bytes → UInt32} {s s' : State} {as : List Action}
    (hrun : run (step crc) s as = some s') :
    s.currentSegmentSeq ≤ s'.currentSegmentSeq ∧ outputs (step crc) rolledTo s as =
      List.range' (s.currentSegmentSeq + 1) (s'.currentSegmentSeq - s.currentSegmentSeq) := by
  induction as generalizing s with
  | nil =>
    cases hrun
    simp [outputs]
  | cons a as ih =>
    obtain ⟨t, ht, hrest⟩ := run_cons.mp hrun
    obtain ⟨hle, hrolls⟩ := ih hrest
    simp only [outputs, ht, hrolls]
    rcases currentSegmentSeq_step ht with ⟨hnone, hseq⟩ | ⟨hroll, hseq⟩
    · rw [hnone, hseq, List.nil_append]
      exact ⟨hseq ▸ hle, rfl⟩
    · rw [hroll, hseq, List.singleton_append]
      have hlt : s.currentSegmentSeq < s'.currentSegmentSeq := by omega
      refine ⟨Nat.le_of_lt hlt, ?_⟩
      obtain ⟨k, hk⟩ := Nat.exists_eq_add_of_lt hlt
      rw [hk, show s.currentSegmentSeq + k + 1 - s.currentSegmentSeq = k + 1 by omega,
        List.range'_succ, show s.currentSegmentSeq + k + 1 - (s.currentSegmentSeq + 1) = k by omega]

/-! ## Segment sizing -/

/-- **Segment sizing.** After any clean sessions with one `segment_bytes`, in any state of
the next one in which no roll is half done: the segments are numbered from one
without a gap up to the active one, and each roll went to the next number; a file
is its header and the batches that went to it; every file but the active one has
a record; and a file longer than `segment_bytes` has just one batch. -/
theorem segment_sizing {crc : Bytes → UInt32} {segmentBytes : Nat} {xs : List CleanSession}
    {b : BatchedLog} (hxs : ∀ x ∈ xs, x.config.segmentBytes = segmentBytes)
    (hsessions : run (BatchedLog.session crc) .empty xs = some b) {config : WalConfig}
    (hconfig : config.segmentBytes = segmentBytes) {o : Opened}
    (hopen : openWithConfig crc config (.directory b.dir) = .ok o) {synced : Nat → Nat}
    {as : List Action} {s : State} (hrun : run (step crc) (o.start config synced) as = some s)
    (hpc : s.pc ≠ .stopped) (hmade : s.pc.nextMade = false) :
    s.contents.seqs = List.range' 1 s.currentSegmentSeq ∧
    outputs (step crc) rolledTo (o.start config synced) as =
      List.range' (o.currentSeq + 1) (s.currentSegmentSeq - o.currentSeq) ∧
    ∀ seq bytes, s.contents.find? seq = some bytes → ∃ batches,
      batches = batchesIn (b.batches ++
        outputs (step crc) writtenBatch (o.start config synced) as) seq ∧
      bytes = segmentHeader ++ encodeRecords crc batches.flatten ∧
      (seq ≠ s.currentSegmentSeq → recordsFound crc bytes ≠ []) ∧
      (segmentBytes < bytes.length → ∃ batch, batches = [batch] ∧ batch ≠ [] ∧
        bytes = segmentHeader ++ encodeRecords crc batch) := by
  have hsize : headerLen ≤ segmentBytes := by
    have := (openWithConfig_valid hopen).segment
    omega
  have h := ((sized_empty crc hsize).sessions hxs hsessions).run hconfig hopen hrun hpc
  have hseqs := h.seqs
  rw [State.lastFile, hmade] at hseqs
  replace hseqs : s.contents.seqs = List.range' 1 s.currentSegmentSeq := hseqs
  refine ⟨hseqs, (rolledTo_run hrun).2, fun seq bytes hfind => ⟨_, rfl, ?_⟩⟩
  have hrange : 1 ≤ seq ∧ seq ≤ s.currentSegmentSeq := by
    have hmem := Dir.mem_seqs_of_find? hfind
    rw [hseqs, List.mem_range'_1] at hmem
    omega
  have hbytes := h.files seq bytes hfind hrange.2
  refine ⟨hbytes, ?_, ?_⟩
  · intro hactive
    rw [hbytes, segmentFile, recordsFound_encodeRecords h.batched.fits]
    intro hnil
    exact h.batched.closed seq hrange.1 (Nat.lt_of_le_of_ne hrange.2 hactive)
      (h.batched.writtenTo_eq_nil.mp hnil)
  · intro hlong
    rw [hbytes, segmentFile, List.length_append, segmentHeader_length, encodeRecords_length]
      at hlong
    obtain ⟨batch, hone⟩ := List.length_eq_one_iff.mp (h.batched.long seq hlong)
    have hmem : batch ∈ batchesIn (b.batches ++
        outputs (step crc) writtenBatch (o.start config synced) as) seq := by
      rw [hone]
      exact List.mem_singleton_self _
    refine ⟨batch, hone, (h.batched.records _ (mem_batchesIn.mp hmem)).1, ?_⟩
    rw [hbytes, segmentFile, writtenTo, hone, List.flatten_singleton]

/-- An append that no segment has room for. -/
def bigAppendRun : List Action :=
  [.buildRequest (List.replicate 60 5) true, .sendRequest 0, .recv 0, .flushFile .ok,
    .createSegment .ok, .writeHeader .ok, .syncHeader .ok, .writeBatch .ok, .indexBatch 0,
    .flushFile .ok]

/-- The reopened log rolls once more, to a segment that is too long. -/
theorem segment_sizing_big_append :
    ∃ b o s bytes, run (BatchedLog.session Crc32.crc32) .empty
        [⟨tinyConfig, fun _ => 0, twoSegmentRun⟩] = some b ∧
      openWithConfig Crc32.crc32 tinyConfig (.directory b.dir) = .ok o ∧
      run (step Crc32.crc32) (o.start tinyConfig fun _ => 0) bigAppendRun = some s ∧
      s.contents.seqs = [1, 2, 3] ∧ s.contents.find? 3 = some bytes ∧
      tinyConfig.segmentBytes < bytes.length ∧
      ∃ batch, batch ≠ [] ∧ bytes = segmentHeader ++ encodeRecords Crc32.crc32 batch := by
  obtain ⟨b, hb, o, hopen, s, hs, hidle, hseq, bytes, hbytes, hlong⟩ :
      ∃ b, run (BatchedLog.session Crc32.crc32) .empty
          [⟨tinyConfig, fun _ => 0, twoSegmentRun⟩] = some b ∧
        ∃ o, openWithConfig Crc32.crc32 tinyConfig (.directory b.dir) = .ok o ∧
        ∃ s, run (step Crc32.crc32) (o.start tinyConfig fun _ => 0) bigAppendRun = some s ∧
          s.pc = .idle ∧ s.currentSegmentSeq = 3 ∧
          ∃ bytes, s.contents.find? 3 = some bytes ∧ tinyConfig.segmentBytes < bytes.length := by
    decide +kernel
  obtain ⟨hseqs, -, hfiles⟩ := segment_sizing (List.forall_mem_singleton.mpr rfl) hb rfl hopen hs
    (by rw [hidle]; simp) (by rw [hidle]; rfl)
  obtain ⟨batches, -, -, -, hone⟩ := hfiles 3 bytes hbytes
  obtain ⟨batch, -, hne, hspelt⟩ := hone hlong
  exact ⟨b, o, s, bytes, hb, hopen, hs, by rw [hseqs, hseq]; rfl, hbytes, hlong, batch, hne, hspelt⟩

end BlipMQ.Wal
