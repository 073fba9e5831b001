import BlipMQ.Wal.Compaction

/-!
# WAL — what the writer never takes back

The start of a segment file is settled once it is durable and the writer's
cursor is behind it: no later step of the process changes it, and a crash
leaves it. Up to the cursor the active file is a header and whole records,
so a durable append that has returned `Ok` stands in a settled start, which
every later scan of the file reads.
-/

namespace BlipMQ.Wal

/-- `p` is the start of the file, and durable. -/
structure SegFile.Starts (f : SegFile) (p : Bytes) : Prop where
  isPrefix : p <+: f.bytes
  durable : p.length ≤ f.synced

/-- The file starts with `p` for good. -/
def State.Settled (s : State) (seq : Nat) (p : Bytes) : Prop :=
  ∃ f, s.dir.find? seq = some f ∧ f.Starts p ∧ seq ≤ s.fileSeq ∧
    (seq = s.fileSeq → p.length ≤ s.filePos)

/-- A segment header and whole records. -/
structure IsSegment (crc : Bytes → UInt32) (p : Bytes) (rs : List WalRecord) : Prop where
  header : headerLen ≤ p.length
  records : p.drop headerLen = encodeRecords crc rs
  fits : ∀ r ∈ rs, r.Fits

/-- The requests that the next successful `flush_file` of their batch answers. -/
def State.awaiting (s : State) : List WalWriteRequest :=
  s.pendingDurableAcks ++ s.pc.unindexed.1

/-- In front of the cursor the active file is a segment, and what awaits an
answer is in it. -/
def State.AtCursor (crc : Bytes → UInt32) (s : State) : Prop :=
  ∃ f rs, s.dir.find? s.fileSeq = some f ∧ s.filePos ≤ f.bytes.length ∧
    IsSegment crc (f.bytes.take s.filePos) rs ∧ ∀ q ∈ s.awaiting, q.record ∈ rs

/-! ## Files -/

section Files

variable {crc : Bytes → UInt32} {f : SegFile} {p : Bytes} {rs : List WalRecord}

theorem SegFile.Starts.writeAll (h : f.Starts p) {pos : Nat} (hpos : p.length ≤ pos)
    (data : Bytes) : (f.writeAll pos data).Starts p :=
  ⟨prefix_writeAt h.isPrefix hpos data, Nat.le_min.mpr ⟨h.durable, hpos⟩⟩

theorem SegFile.Starts.syncData (h : f.Starts p) : f.syncData.Starts p :=
  ⟨h.isPrefix, h.isPrefix.length_le⟩

theorem IsSegment.length (h : IsSegment crc p rs) : p.length = headerLen + sizeAll rs := by
  have hlen := congrArg List.length h.records
  rw [List.length_drop, encodeRecords_length] at hlen
  have := h.header
  omega

theorem isSegment_header : IsSegment crc segmentHeader [] :=
  ⟨by simp, by rw [← segmentHeader_length, List.drop_length]; rfl, by simp⟩

theorem IsSegment.append (h : IsSegment crc p rs) {ts : List WalRecord}
    (hts : ∀ r ∈ ts, r.Fits) : IsSegment crc (p ++ encodeRecords crc ts) (rs ++ ts) := by
  refine ⟨?_, ?_, ?_⟩
  · rw [List.length_append]
    exact Nat.le_add_right_of_le h.header
  · rw [List.drop_append_of_le_length h.header, h.records, encodeRecords_append]
  · intro r hr
    rcases List.mem_append.mp hr with hr | hr
    · exact h.fits r hr
    · exact hts r hr

/-- What a scan of the file returns stands at its start. -/
theorem isSegment_of_scan {file : Bytes} {found : List (WalRecord × Nat)} {stop : Nat}
    (hlen : headerLen ≤ file.length)
    (h : scanRecords crc (file.drop headerLen) headerLen = .ok (found, stop)) :
    stop ≤ file.length ∧ IsSegment crc (file.take stop) (found.map Prod.fst) := by
  have hstop := scanRecords_stop_le hlen h
  obtain ⟨rs, rest, hfile, hfits, rfl, rfl, -⟩ := scanRecords_ok h
  refine ⟨hstop, ?_, ?_, ?_⟩
  · rw [List.length_take, Nat.min_eq_left hstop]
    exact Nat.le_add_right _ _
  · rw [located_map_fst, List.drop_take, hfile, Nat.add_sub_cancel_left,
      ← encodeRecords_length crc, List.take_left]
  · rw [located_map_fst]
    exact hfits

/-- A scan reads the segment at the start of the file, whatever is behind it. -/
theorem IsSegment.scan (h : IsSegment crc p rs) {file : Bytes} (hp : p <+: file)
    {found : List (WalRecord × Nat)} {stop : Nat}
    (hscan : scanRecords crc (file.drop headerLen) headerLen = .ok (found, stop)) :
    p.length ≤ stop ∧ ∀ r ∈ rs, r ∈ found.map Prod.fst := by
  obtain ⟨rest, rfl⟩ := hp
  rw [List.drop_append_of_le_length h.header, h.records, scanRecords_append h.fits] at hscan
  cases hrest : scanRecords crc rest (headerLen + sizeAll rs) with
  | error e => rw [hrest] at hscan; cases hscan
  | ok out =>
    rw [hrest] at hscan
    simp only [Except.map, Except.ok.injEq, Prod.mk.injEq] at hscan
    obtain ⟨rfl, rfl⟩ := hscan
    obtain ⟨ts, -, -, -, -, hstop, -⟩ := scanRecords_ok hrest
    refine ⟨by rw [h.length, hstop]; exact Nat.le_add_right _ _, fun r hr => ?_⟩
    rw [List.map_append, located_map_fst]
    exact List.mem_append_left _ hr

end Files

/-! ## Steps -/

/-- What a step does to the files, the cursor and the answers. -/
inductive DiskStep (crc : Bytes → UInt32) (s s' : State) : Prop
  /-- No file operation, or one that failed before it changed anything. -/
  | still (dir : s'.dir = s.dir) (fileSeq : s'.fileSeq = s.fileSeq)
      (filePos : s'.filePos = s.filePos)
      (answers : ∀ q, (q, .ok ()) ∈ s'.answers → (q, .ok ()) ∈ s.answers)
      (awaiting : ∀ q ∈ s'.awaiting, q ∈ s.awaiting)
  | synced (dir : s'.dir = s.dir.modify s.fileSeq SegFile.syncData)
      (fileSeq : s'.fileSeq = s.fileSeq) (filePos : s'.filePos = s.filePos)
      (answers : ∀ q, (q, .ok ()) ∈ s'.answers → (q, .ok ()) ∈ s.answers ∨ q ∈ s.awaiting)
      (awaiting : s'.awaiting = [])
  /-- The next segment file is created, or its header is written. -/
  | next (dir : s.dir.create (s.currentSegmentSeq + 1) ⟨[], 0⟩ = some s'.dir ∨
        ∃ batch flush data, s.pc = .rollHeader batch flush ∧
          s'.dir = s.dir.modify (s.currentSegmentSeq + 1) fun f => f.writeAll 0 data)
      (fileSeq : s'.fileSeq = s.fileSeq) (filePos : s'.filePos = s.filePos)
      (answers : s'.answers = s.answers) (awaiting : ∀ q ∈ s'.awaiting, q ∈ s.awaiting)
  | moved (batch : List WalWriteRequest) (flush : Bool) (pc : s.pc = .rollHeaderSync batch flush)
      (dir : s'.dir = s.dir.modify (s.currentSegmentSeq + 1) SegFile.syncData)
      (fileSeq : s'.fileSeq = s.currentSegmentSeq + 1) (filePos : s'.filePos = headerLen)
      (answers : s'.answers = s.answers) (awaiting : ∀ q ∈ s'.awaiting, q ∈ s.awaiting)
  | wrote (batch : List WalWriteRequest) (flush : Bool) (pc : s.pc = .write batch flush)
      (dir : s'.dir = s.dir.modify s.fileSeq fun f =>
        f.writeAll s.filePos (encodeRecords crc (batchRecords batch)))
      (fileSeq : s'.fileSeq = s.fileSeq)
      (filePos : s'.filePos = s.filePos + (encodeRecords crc (batchRecords batch)).length)
      (answers : s'.answers = s.answers)
      (awaiting : ∀ q ∈ s'.awaiting, q ∈ s.awaiting ∨ q ∈ batch)
  /-- A write that failed somewhere; the task is over. -/
  | tore (data : Bytes) (pc : (∃ batch flush, s.pc = .write batch flush) ∧ s'.pc = .stopped)
      (dir : s'.dir = s.dir.modify s.fileSeq fun f => f.writeAll s.filePos data)
      (fileSeq : s'.fileSeq = s.fileSeq) (filePos : s'.filePos = s.filePos)
      (answers : s'.answers = s.answers) (awaiting : s'.awaiting = [])

section Steps

variable {crc : Bytes → UInt32} {first : Nat} {s s' : State}

private theorem unindexed_afterBatch (flush : Bool) :
    (afterBatch flush).unindexed = ([], []) := by
  cases flush <;> rfl

/-- With no written batch in hand, only the pending requests wait. -/
theorem mem_awaiting_of_pending (hpc : s'.pc.unindexed.1 = [])
    (hpend : ∀ q ∈ s'.pendingDurableAcks, q ∈ s.awaiting) : ∀ q ∈ s'.awaiting, q ∈ s.awaiting := by
  intro q hq
  rw [State.awaiting, hpc, List.append_nil] at hq
  exact hpend q hq

theorem mem_awaiting_of_same (hpc : s'.pc.unindexed.1 = [])
    (hpend : s'.pendingDurableAcks = s.pendingDurableAcks) : ∀ q ∈ s'.awaiting, q ∈ s.awaiting :=
  mem_awaiting_of_pending hpc fun _ hq => List.mem_append_left _ (hpend ▸ hq)

theorem State.mem_answers_flushFile {result : IoResult} {q : WalWriteRequest}
    (h : (q, .ok ()) ∈ (s.flushFile result).answers) :
    (q, .ok ()) ∈ s.answers ∨ result = .ok ∧ q ∈ s.awaiting := by
  cases result with
  | ok =>
    rcases List.mem_append.mp h with h | h
    · exact .inl h
    · obtain ⟨x, hx, heq⟩ := List.mem_map.mp h
      cases heq
      exact .inr ⟨rfl, List.mem_append_left _ hx⟩
  | failed reason =>
    rcases List.mem_append.mp h with h | h
    · exact .inl h
    · obtain ⟨x, -, heq⟩ := List.mem_map.mp h
      cases heq

/-- `flush_file` and then on to a point at which no batch is in hand. -/
theorem diskStep_flushFile (result : IoResult) (hdir : s'.dir = (s.flushFile result).dir)
    (hseq : s'.fileSeq = s.fileSeq) (hpos : s'.filePos = s.filePos)
    (hans : s'.answers = (s.flushFile result).answers) (hawait : s'.awaiting = []) :
    DiskStep crc s s' := by
  cases result with
  | ok =>
    refine .synced hdir hseq hpos (fun q hq => ?_) hawait
    exact (State.mem_answers_flushFile (hans ▸ hq)).imp id And.right
  | failed reason =>
    refine .still hdir hseq hpos (fun q hq => ?_) (by rw [hawait]; nofun)
    rcases State.mem_answers_flushFile (hans ▸ hq) with hold | ⟨hok, -⟩
    · exact hold
    · cases hok

theorem diskStep_flushThen (result : IoResult) {pc : Pc} (hpc : pc.unindexed = ([], [])) :
    DiskStep crc s (s.flushThen result pc) := by
  cases result with
  | ok =>
    refine diskStep_flushFile .ok rfl rfl rfl rfl ?_
    show [] ++ pc.unindexed.1 = []
    rw [hpc]
    rfl
  | failed reason => exact diskStep_flushFile (.failed reason) rfl rfl rfl rfl rfl

/-- **What a step can do to the files**, whatever the outcome of its operation. -/
theorem diskStep_of_step {a : Action} (hs : step crc s a = some s') : DiskStep crc s s' := by
  cases stepped_of_step hs with
  | caller => exact .still rfl rfl rfl (fun _ hq => hq) fun _ hq => hq
  | recvBatch =>
    refine .still rfl rfl rfl (fun _ hq => hq) (mem_awaiting_of_same ?_ rfl)
    dsimp only
    split <;> rfl
  | recvFlush => exact .still rfl rfl rfl (fun _ hq => hq) (mem_awaiting_of_same rfl rfl)
  | rollFlushed result => exact diskStep_flushThen result rfl
  | synced result => exact diskStep_flushThen result (unindexed_afterBatch _)
  | flushed result => cases result <;> exact diskStep_flushFile _ rfl rfl rfl rfl rfl
  | notCreated | notMoved => exact .still rfl rfl rfl (fun _ hq => hq) (List.forall_mem_nil _)
  | created _ hcreate => exact .next (.inl hcreate) rfl rfl rfl (mem_awaiting_of_same rfl rfl)
  | headed hpc =>
    exact .next (.inr ⟨_, _, _, hpc, rfl⟩) rfl rfl rfl (mem_awaiting_of_same rfl rfl)
  | headTorn hpc => exact .next (.inr ⟨_, _, _, hpc, rfl⟩) rfl rfl rfl (List.forall_mem_nil _)
  | moved hpc => exact .moved _ _ hpc rfl rfl rfl rfl (mem_awaiting_of_same rfl rfl)
  | wrote hpc =>
    refine .wrote _ _ hpc rfl rfl rfl rfl fun q hq => ?_
    exact (List.mem_append.mp hq).imp (List.mem_append_left _) id
  | torn hpc => exact .tore _ ⟨⟨_, _, hpc⟩, rfl⟩ rfl rfl rfl rfl rfl
  | indexed elapsed hpc =>
    refine .still rfl rfl rfl (fun _ hq => hq) (mem_awaiting_of_pending ?_ fun q hq => ?_)
    · dsimp only
      split
      · rfl
      · rw [unindexed_afterBatch]
    · rw [State.awaiting, hpc]
      exact (List.filter_sublist.append_left _).subset hq

/-! ## What a step keeps -/

section Inv

variable {origin : Origin} {Base : Bytes → Prop} {L : Layout} {batch : List WalWriteRequest}
  {flush : Bool}

theorem Inv.currentSeq (h : Inv crc origin Base s L) : s.currentSegmentSeq = s.fileSeq :=
  h.disk.currentSeq.trans h.disk.fileSeq.symm

theorem Inv.find?_stray (h : Inv crc origin Base s L) {f : SegFile}
    (hstray : L.stray = [(L.active.seq + 1, f)]) :
    s.dir.find? (s.currentSegmentSeq + 1) = some f := by
  rw [Dir.find?_eq_some, h.disk.files, Layout.files, hstray, h.disk.currentSeq]
  exact List.mem_append_right _ (List.mem_singleton_self _)

/-- The file a roll has created. -/
theorem Inv.find?_created (h : Inv crc origin Base s L) (hpc : s.pc = .rollHeader batch flush) :
    s.dir.find? (s.currentSegmentSeq + 1) = some ⟨[], 0⟩ := by
  have hstray := h.disk.stray
  rw [hpc] at hstray
  exact h.find?_stray hstray

/-- The file a roll is about to move to. -/
theorem Inv.find?_headed (h : Inv crc origin Base s L)
    (hpc : s.pc = .rollHeaderSync batch flush) :
    s.dir.find? (s.currentSegmentSeq + 1) = some ⟨segmentHeader, 0⟩ := by
  have hstray := h.disk.stray
  rw [hpc] at hstray
  exact h.find?_stray hstray

end Inv

/-- A log that was opened with the next id `first` and has been running since,
whatever a compactor did to its index. -/
structure Steady (crc : Bytes → UInt32) (first : Nat) (s : State) : Prop where
  inv : ∃ full origin L, Inv crc origin (fun _ => True) (s.withIndex full) L ∧
    origin.records = [] ∧ origin.nextId = first
  cursor : s.AtCursor crc

namespace Steady

theorem withIndex (h : Steady crc first s) (index : Index) :
    Steady crc first (s.withIndex index) :=
  ⟨h.inv, h.cursor⟩

theorem nextId (h : Steady crc first s) : s.nextId = (first + s.taken) % 2 ^ 64 := by
  obtain ⟨full, origin, L, hi, -, hfirst⟩ := h.inv
  rw [← hfirst]
  exact hi.requests.nextId

theorem currentSeq (h : Steady crc first s) : s.currentSegmentSeq = s.fileSeq := by
  obtain ⟨full, origin, L, hi, -, -⟩ := h.inv
  exact hi.currentSeq

variable {batch : List WalWriteRequest} {flush : Bool}

theorem find?_headed (h : Steady crc first s) (hpc : s.pc = .rollHeaderSync batch flush) :
    s.dir.find? (s.currentSegmentSeq + 1) = some ⟨segmentHeader, 0⟩ := by
  obtain ⟨full, origin, L, hi, -, -⟩ := h.inv
  exact hi.find?_headed hpc

/-- Nothing waits for an answer while the writer moves to the next file. -/
theorem awaiting_eq_nil (h : Steady crc first s) (hpc : s.pc = .rollHeaderSync batch flush) :
    s.awaiting = [] := by
  obtain ⟨full, origin, L, hi, h₀, -⟩ := h.inv
  have hpend : s.pendingDurableAcks = [] := (hi.acks h₀).pending_nil (by
    intro flush' hsync
    rw [State.withIndex_pc, hpc] at hsync
    cases hsync)
  rw [State.awaiting, hpend, hpc]
  rfl

theorem batch_fits (h : Steady crc first s) (hpc : s.pc = .write batch flush) :
    ∀ r ∈ batchRecords batch, r.Fits := by
  obtain ⟨full, origin, L, hi, h₀, -⟩ := h.inv
  intro r hr
  have hrun : L.records ++ batchRecords s.pc.batch = origin.records ++ s.received :=
    hi.log.running (by rw [State.withIndex_pc, hpc]; nofun)
  rw [hpc, h₀, List.nil_append] at hrun
  have hreceived : r ∈ s.received := by
    rw [← hrun]
    exact List.mem_append_right _ hr
  exact hi.requests.fits (mem_requests_of_received hreceived)

/-- The cursor only moves to later files. -/
theorem fileSeq_le (h : Steady crc first s) (hd : DiskStep crc s s') : s.fileSeq ≤ s'.fileSeq := by
  cases hd with
  | moved _ _ _ _ hseq _ _ _ =>
    rw [hseq, h.currentSeq]
    exact Nat.le_succ _
  | still _ hseq _ _ _ | synced _ hseq _ _ _ | next _ hseq _ _ _ | wrote _ _ _ _ hseq _ _ _
  | tore _ _ _ hseq _ _ _ => exact Nat.le_of_eq hseq.symm

end Steady

/-- Steps on the active file. -/
theorem State.Settled.modify {seq : Nat} {p : Bytes} (h : s.Settled seq p) {g : SegFile → SegFile}
    (hdir : s'.dir = s.dir.modify s.fileSeq g) (hseq : s'.fileSeq = s.fileSeq)
    (hpos : s.filePos ≤ s'.filePos)
    (hg : ∀ f : SegFile, f.Starts p → p.length ≤ s.filePos → (g f).Starts p) :
    s'.Settled seq p := by
  obtain ⟨f, hf, hp, hle, hcur⟩ := h
  refine ⟨if seq = s.fileSeq then g f else f, ?_, ?_, by rw [hseq]; exact hle, ?_⟩
  · rw [hdir, Dir.find?_modify, hf]
    rfl
  · split
    · rename_i heq
      exact hg f hp (hcur heq)
    · exact hp
  · rw [hseq]
    intro heq
    exact Nat.le_trans (hcur heq) hpos

/-- **A settled start stays**, whatever the step does. -/
theorem State.Settled.step {seq : Nat} {p : Bytes} (h : s.Settled seq p) (hst : Steady crc first s)
    (hd : DiskStep crc s s') : s'.Settled seq p := by
  have hsettled := h
  obtain ⟨f, hf, hp, hle, hcur⟩ := h
  -- a roll works on the file after the active one, where nothing is settled yet
  have hne : seq ≠ s.currentSegmentSeq + 1 := by
    rw [hst.currentSeq]
    omega
  cases hd with
  | still hdir hseq hpos _ _ =>
    exact ⟨f, by rw [hdir]; exact hf, hp, by rw [hseq]; exact hle, by rw [hseq, hpos]; exact hcur⟩
  | synced hdir hseq hpos _ _ =>
    exact hsettled.modify hdir hseq (Nat.le_of_eq hpos.symm) fun f hf _ => hf.syncData
  | next hdir hseq hpos _ _ =>
    refine ⟨f, ?_, hp, by rw [hseq]; exact hle, by rw [hseq, hpos]; exact hcur⟩
    rcases hdir with hcreate | ⟨_, _, _, -, hdir⟩
    · exact Dir.find?_create_of_ne hcreate hne hf
    · rw [hdir, Dir.find?_modify, hf, Option.map_some, if_neg hne]
  | moved batch flush _ hdir hseq _ _ _ =>
    refine ⟨f, ?_, hp, ?_, fun heq => absurd (heq.trans hseq) hne⟩
    · rw [hdir, Dir.find?_modify, hf, Option.map_some, if_neg hne]
    · rw [hseq, hst.currentSeq]
      omega
  | wrote batch flush _ hdir hseq hpos _ _ =>
    exact hsettled.modify hdir hseq (by omega) fun f hf hlen => hf.writeAll hlen _
  | tore data _ hdir hseq hpos _ _ =>
    exact hsettled.modify hdir hseq (by omega) fun f hf hlen => hf.writeAll hlen _

/-- Up to the cursor the active file stays a segment. -/
theorem Steady.cursor_step (h : Steady crc first s) (hd : DiskStep crc s s') : s'.AtCursor crc := by
  obtain ⟨f, rs, hf, hlen, hseg, hawait⟩ := h.cursor
  have hne : s.fileSeq ≠ s.currentSegmentSeq + 1 := by
    rw [h.currentSeq]
    omega
  cases hd with
  | still hdir hseq hpos _ hsub =>
    refine ⟨f, rs, by rw [hdir, hseq]; exact hf, by rw [hpos]; exact hlen,
      by rw [hpos]; exact hseg, fun q hq => hawait q (hsub q hq)⟩
  | synced hdir hseq hpos _ hnil =>
    refine ⟨f.syncData, rs, ?_, by rw [hpos]; exact hlen, by rw [hpos]; exact hseg,
      by rw [hnil]; nofun⟩
    rw [hdir, hseq, Dir.find?_modify, hf, Option.map_some, if_pos rfl]
  | next hdir hseq hpos _ hsub =>
    refine ⟨f, rs, ?_, by rw [hpos]; exact hlen, by rw [hpos]; exact hseg,
      fun q hq => hawait q (hsub q hq)⟩
    rw [hseq]
    rcases hdir with hcreate | ⟨_, _, _, -, hdir⟩
    · exact Dir.find?_create_of_ne hcreate hne hf
    · rw [hdir, Dir.find?_modify, hf, Option.map_some, if_neg hne]
  | moved batch flush hpc hdir hseq hpos _ hsub =>
    -- the new active file is a bare header, and nobody waits for an answer
    refine ⟨SegFile.syncData ⟨segmentHeader, 0⟩, [], ?_, by rw [hpos]; simp [SegFile.syncData],
      ?_, ?_⟩
    · rw [hdir, hseq, Dir.find?_modify, h.find?_headed hpc, Option.map_some, if_pos rfl]
    · rw [hpos, ← segmentHeader_length]
      show IsSegment crc (segmentHeader.take segmentHeader.length) []
      rw [List.take_length]
      exact isSegment_header
    · rw [h.awaiting_eq_nil hpc] at hsub
      exact fun q hq => absurd (hsub q hq) List.not_mem_nil
  | wrote batch flush hpc hdir hseq hpos _ hsub =>
    refine ⟨f.writeAll s.filePos (encodeRecords crc (batchRecords batch)),
      rs ++ batchRecords batch, ?_, ?_, ?_, ?_⟩
    · rw [hdir, hseq, Dir.find?_modify, hf, Option.map_some, if_pos rfl]
    · rw [hpos]
      exact length_writeAt_le hlen _
    · rw [hpos, SegFile.writeAll, take_writeAt hlen]
      exact hseg.append (h.batch_fits hpc)
    · intro q hq
      rcases hsub q hq with hold | hnew
      · exact List.mem_append_left _ (hawait q hold)
      · exact List.mem_append_right _ (List.mem_map_of_mem hnew)
  | tore data _ hdir hseq hpos _ hnil =>
    refine ⟨f.writeAll s.filePos data, rs, ?_, ?_, ?_, by rw [hnil]; nofun⟩
    · rw [hdir, hseq, Dir.find?_modify, hf, Option.map_some, if_pos rfl]
    · rw [hpos]
      exact Nat.le_trans (Nat.le_add_right _ _) (length_writeAt_le hlen data)
    · have htake := congrArg (List.take s.filePos) (take_writeAt hlen data)
      rw [List.take_take, Nat.min_eq_left (Nat.le_add_right _ _),
        List.take_append_of_le_length (by simp [hlen]), List.take_take, Nat.min_self] at htake
      rw [hpos, SegFile.writeAll, htake]
      exact hseg

/-- What a step answers with `Ok` stands in the settled start of the active file. -/
theorem Steady.answered (h : Steady crc first s) (hd : DiskStep crc s s') {q : WalWriteRequest}
    (hq : (q, .ok ()) ∈ s'.answers) :
    (q, .ok ()) ∈ s.answers ∨
      ∃ p rs, s'.Settled s'.fileSeq p ∧ IsSegment crc p rs ∧ q.record ∈ rs := by
  cases hd with
  | still _ _ _ hans _ => exact .inl (hans q hq)
  | next _ _ _ hans _ | moved _ _ _ _ _ _ hans _ | wrote _ _ _ _ _ _ hans _
  | tore _ _ _ _ _ hans _ => exact .inl (hans ▸ hq)
  | synced hdir hseq hpos hans _ =>
    rcases hans q hq with hold | hwait
    · exact .inl hold
    · -- the sync covers all of the file, so its start up to the cursor is settled
      obtain ⟨f, rs, hf, hlen, hseg, hawait⟩ := h.cursor
      refine .inr ⟨f.bytes.take s.filePos, rs, ⟨f.syncData, ?_, ⟨List.take_prefix _ _, ?_⟩,
        Nat.le_refl _, fun _ => ?_⟩, hseg, hawait q hwait⟩
      · rw [hdir, hseq, Dir.find?_modify, hf, Option.map_some, if_pos rfl]
      · exact (List.take_prefix _ _).length_le
      · rw [hpos, List.length_take]
        exact Nat.min_le_left _ _

theorem Steady.step (h : Steady crc first s) {a : Action} (hs : step crc s a = some s') :
    Steady crc first s' := by
  refine ⟨?_, h.cursor_step (diskStep_of_step hs)⟩
  obtain ⟨full, origin, L, hi, h₀⟩ := h.inv
  have hstep := step_withIndex hs full
  obtain ⟨L', hi'⟩ := hi.step trivial hstep
  exact ⟨_, origin, L', hi', h₀⟩

end Steps

end BlipMQ.Wal
