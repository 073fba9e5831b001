import BlipMQ.Wal.Settled

/-!
# WAL — files that only grow

The writer appends. As long as its cursor stands at the end of its file, no
step touches a byte that is already there, so what a reader has found in the
log stays in the log. The cursor stands at the end from the start on, unless
the log was opened behind a record that a crash had cut short.
-/

namespace BlipMQ.Wal

variable {crc : Bytes → UInt32} {s s' : State}

/-- The bytes of the record stand in one of the files. -/
def Written (crc : Bytes → UInt32) (s : State) (r : WalRecord) : Prop :=
  ∃ loc, HeldAt crc s.contents r loc

/-- They do, in the durable part of the file. -/
def Fsynced (crc : Bytes → UInt32) (s : State) (r : WalRecord) : Prop :=
  ∃ (loc : RecordLocation) (f : SegFile), s.dir.find? loc.segmentSeq = some f ∧
    encodeRecord crc r <+: f.bytes.drop loc.offsetInSegment ∧
    loc.offsetInSegment + r.size ≤ f.synced

theorem State.find?_contents (s : State) (seq : Nat) :
    s.contents.find? seq = (s.dir.find? seq).map SegFile.bytes :=
  Dir.find?_map ..

variable {r : WalRecord}

theorem Fsynced.written (h : Fsynced crc s r) : Written crc s r := by
  obtain ⟨loc, f, hf, hr, -⟩ := h
  exact ⟨loc, f.bytes, by rw [s.find?_contents, hf]; rfl, hr⟩

/-! ## Appending -/

def SegFile.Longer (f f' : SegFile) : Prop := f.bytes <+: f'.bytes

theorem SegFile.Longer.refl (f : SegFile) : f.Longer f := List.prefix_refl _

theorem Written.keeps (h : Written crc s r) (hkeeps : s.dir.Keeps SegFile.Longer s'.dir) :
    Written crc s' r := by
  obtain ⟨loc, file, hfile, hr⟩ := h
  rw [s.find?_contents] at hfile
  obtain ⟨f, hf, rfl⟩ := Option.map_eq_some_iff.mp hfile
  obtain ⟨f', hf', more, hmore⟩ := hkeeps _ f hf
  refine ⟨loc, f'.bytes, by rw [s'.find?_contents, hf']; rfl, ?_⟩
  rw [← hmore, List.drop_append]
  exact hr.trans (List.prefix_append _ _)

/-- The next write goes to the end of its file. -/
def State.AtEnd (s : State) : Prop :=
  ∃ f, s.dir.find? s.fileSeq = some f ∧ f.bytes.length = s.filePos

/-- An opened log whose writer, as long as it runs, appends. -/
structure Appending (crc : Bytes → UInt32) (s : State) : Prop where
  inv : ∃ origin L, Inv crc origin (fun _ => True) s L ∧ origin.records = []
  atEnd : s.pc ≠ .stopped → s.AtEnd

theorem keeps_syncData (d : Dir SegFile) (seq : Nat) :
    d.Keeps SegFile.Longer (d.modify seq SegFile.syncData) :=
  Dir.keeps_modify .refl fun f _ => SegFile.Longer.refl f

theorem keeps_writeAll {d : Dir SegFile} {seq pos : Nat} {f : SegFile} (hf : d.find? seq = some f)
    (hpos : f.bytes.length = pos) (data : Bytes) :
    d.Keeps SegFile.Longer (d.modify seq fun f => f.writeAll pos data) := by
  refine Dir.keeps_modify .refl fun g hg => ?_
  rw [hf] at hg
  cases hg
  show f.bytes <+: writeAt f.bytes pos data
  rw [← hpos, writeAt_end]
  exact List.prefix_append _ _

/-- **Every step appends**: the files are still there and have at most got longer. -/
theorem Appending.step (h : Appending crc s) {a : Action} (hs : Wal.step crc s a = some s') :
    Appending crc s' ∧ s.dir.Keeps SegFile.Longer s'.dir := by
  obtain ⟨origin, L, hi, h₀⟩ := h.inv
  obtain ⟨L', hi'⟩ := hi.step trivial hs
  have hrun (hpc : s'.pc ≠ .stopped) : s.AtEnd := h.atEnd fun hstop => hpc (step_stopped hs hstop)
  have hne : s.fileSeq ≠ s.currentSegmentSeq + 1 := by
    rw [hi.currentSeq]
    omega
  suffices (s'.pc ≠ .stopped → s'.AtEnd) ∧ s.dir.Keeps SegFile.Longer s'.dir from
    ⟨⟨⟨origin, L', hi', h₀⟩, this.1⟩, this.2⟩
  cases diskStep_of_step hs with
  | still hdir hseq hpos _ _ =>
    rw [State.AtEnd, hdir, hseq, hpos]
    exact ⟨hrun, .refl .refl _⟩
  | synced hdir hseq hpos _ _ =>
    rw [State.AtEnd, hdir, hseq, hpos]
    refine ⟨fun hpc => ?_, keeps_syncData _ _⟩
    obtain ⟨f, hf, hlen⟩ := hrun hpc
    exact ⟨f.syncData, by rw [Dir.find?_modify, hf, Option.map_some, if_pos rfl], hlen⟩
  | next hdir hseq hpos _ _ =>
    rw [State.AtEnd, hseq, hpos]
    rcases hdir with hcreate | ⟨batch, flush, data, hpc, hdir⟩
    · refine ⟨fun hpc => ?_, Dir.keeps_create .refl hcreate⟩
      obtain ⟨f, hf, hlen⟩ := hrun hpc
      exact ⟨f, Dir.find?_create_of_ne hcreate hne hf, hlen⟩
    · -- the header goes to a file that is still empty
      have hnew := hi.find?_created hpc
      rw [hdir]
      refine ⟨fun hpc => ?_, Dir.keeps_modify .refl fun f hf => ?_⟩
      · obtain ⟨f, hf, hlen⟩ := hrun hpc
        exact ⟨f, by rw [Dir.find?_modify, hf, Option.map_some, if_neg hne], hlen⟩
      · rw [hnew] at hf
        cases hf
        exact List.nil_prefix
  | moved batch flush hpc hdir hseq hpos _ _ =>
    rw [State.AtEnd, hdir, hseq, hpos]
    refine ⟨fun _ => ⟨SegFile.syncData ⟨segmentHeader, 0⟩, ?_, segmentHeader_length⟩,
      keeps_syncData _ _⟩
    rw [Dir.find?_modify, hi.find?_headed hpc, Option.map_some, if_pos rfl]
  | wrote batch flush hpc hdir hseq hpos _ _ =>
    obtain ⟨f, hf, hlen⟩ := h.atEnd (by rw [hpc]; nofun)
    rw [State.AtEnd, hdir, hseq, hpos]
    refine ⟨fun _ => ⟨_, by rw [Dir.find?_modify, hf, Option.map_some, if_pos rfl], ?_⟩,
      keeps_writeAll hf hlen _⟩
    rw [SegFile.writeAll, ← hlen, writeAt_end, List.length_append]
  | tore data hstop hdir _ _ _ _ =>
    obtain ⟨⟨batch, flush, hpc⟩, hstop⟩ := hstop
    obtain ⟨f, hf, hlen⟩ := h.atEnd (by rw [hpc]; nofun)
    rw [hdir]
    exact ⟨fun hpc => absurd hstop hpc, keeps_writeAll hf hlen _⟩

/-- Behind the last record of the tail segment there is nothing. -/
def Opened.AtEnd (o : Opened) : Prop :=
  ∃ bytes, o.dir.find? o.currentSeq = some bytes ∧ bytes.length = o.currentOffset

theorem Opened.AtEnd.start {o : Opened} (h : o.AtEnd) {config : WalConfig} {path : WalPath}
    (hopen : openWithConfig crc config path = .ok o) (synced : Nat → Nat) :
    Appending crc (o.start config synced) := by
  obtain ⟨bytes, hbytes, hlen⟩ := h
  refine ⟨opened_run_inv hopen (run_nil _), fun _ =>
    ⟨⟨bytes, min (synced o.currentSeq) bytes.length⟩, ?_, hlen⟩⟩
  show (o.dir.map _).find? o.currentSeq = _
  rw [Dir.find?_map, hbytes]
  rfl

/-! ## Reading -/

variable {rs : List WalRecord}

theorem mem_located_isPrefix {file : Bytes} {start : Nat} {rest : Bytes}
    (hfile : file.drop start = encodeRecords crc rs ++ rest) {o : Nat}
    (hr : (r, o) ∈ located start rs) : encodeRecord crc r <+: file.drop o := by
  obtain ⟨front, back, rfl, rfl⟩ := mem_located.mp hr
  refine ⟨encodeRecords crc back ++ rest, ?_⟩
  rw [← List.drop_drop, hfile, encodeRecords_append, encodeRecords_cons, List.append_assoc,
    ← encodeRecords_length crc front, List.drop_left, List.append_assoc]

/-- What the walk over the files returns stands in them. -/
theorem heldAt_of_walkSegments {dir : Dir Bytes} {startSeq startOffset minId : Nat}
    {files : List (Nat × Bytes)} (hsub : ∀ p ∈ files, p ∈ dir.files)
    (h : walkSegments crc startSeq startOffset minId files = .ok rs) (hr : r ∈ rs) :
    ∃ loc, HeldAt crc dir r loc := by
  induction files generalizing rs with
  | nil =>
    cases h
    exact absurd hr List.not_mem_nil
  | cons p files ih =>
    obtain ⟨found, stop, more, hscan, hmore, rfl⟩ := walkSegments_cons_ok h
    rcases List.mem_append.mp hr with hr | hr
    · obtain ⟨⟨x, o⟩, hx, rfl⟩ := List.mem_map.mp (List.mem_filter.mp hr).1
      obtain ⟨rs, rest, hfile, -, rfl, -, -⟩ := scanRecords_ok hscan
      exact ⟨⟨p.1, o⟩, p.2, Dir.find?_eq_some.mpr (hsub p List.mem_cons_self),
        mem_located_isPrefix hfile hx⟩
    · exact ih (fun q hq => hsub q (List.mem_cons_of_mem _ hq)) hmore hr

/-- **What `iterate_from` returns is in the log.** -/
theorem written_of_iterateFrom {fromId : Nat}
    (h : iterateFrom crc s.index s.contents fromId = .ok rs) (hr : r ∈ rs) : Written crc s r := by
  unfold iterateFrom at h
  split at h
  · cases h
    exact absurd hr List.not_mem_nil
  · exact heldAt_of_walkSegments (fun p hp => (List.mem_filter.mp hp).1) h hr

/-! ## Answers -/

theorem Inv.fsynced {origin : Origin} {Base : Bytes → Prop} {L : Layout}
    (h : Inv crc origin Base s L) (h₀ : origin.records = []) {q : WalWriteRequest}
    (hq : (q, .ok ()) ∈ s.answers) : Fsynced crc s q.record := by
  obtain ⟨seg, hseg, o, ho, hsync⟩ := (h.acks h₀).answers q hq
  exact ⟨⟨seg.seq, o⟩, ⟨seg.bytes crc, seg.synced⟩, h.mem_files hseg,
    Seg.encodeRecord_isPrefix crc ho, hsync⟩

end BlipMQ.Wal
