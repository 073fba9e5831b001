import BlipMQ.Wal.Compaction

/-!
# WAL — how much a crash can cost

Most appends do not wait for the disk: `maybe_sync` lets records gather and
syncs once `fsync_every_n` of them have. What the caller of such an append
gets is a bound. With the writer waiting for its next message, all but the
last `fsync_every_n - 1` received records are durable, whatever was batched,
rolled over or failed to sync on request before.
-/

namespace BlipMQ.Wal

variable {crc : Bytes → UInt32} {origin : Origin} {s s' : State} {L : Layout}

/-- The state with one more answered flush in its books. The invariant then
says that `rs` is durable, and every step keeps saying it, since none reads
the answers. -/
def State.noting (s : State) (rs : List WalRecord) : State := s.beside s.index [(rs, .ok ())]

variable {a : Action}

theorem step_noting (rs : List WalRecord) (hs : step crc s a = some s') :
    step crc (s.noting rs) a = some (s'.noting rs) := by
  rw [State.noting, step_beside, hs, Option.map_some, ← step_index hs]
  rfl

/-! ## Counting -/

/-- How many records the writer holds that `unflushed_records` does not count yet. -/
def Pc.inHand : Pc → Nat
  | .index _ offsets _ => offsets.length
  | pc => pc.batch.length

/-- Unless a sync is next, fewer than `fsync_every_n` records wait for one. -/
def State.BelowDue (s : State) : Prop :=
  ∀ n, s.config.fsyncEveryN = some n → s.pc ≠ .stopped → (∀ flush, s.pc ≠ .sync flush) →
    s.unflushedRecords ≤ n - 1

/-- Between the two states `more` was received, and nothing was synced. -/
structure Unsynced (s s' : State) (more : List WalRecord) : Prop where
  config : s'.config = s.config
  received : s'.received = s.received ++ more
  counted : s'.pc ≠ .stopped → s.pc ≠ .stopped ∧
    s.unflushedRecords + s.pc.inHand + more.length ≤ s'.unflushedRecords + s'.pc.inHand
  belowDue : s.BelowDue → s'.BelowDue

/-- A step that counts nothing, and does not leave a sync but by returning. -/
theorem Unsynced.uncounted {more : List WalRecord}
    (hsame : (s'.config, s'.received, s'.unflushedRecords) =
      (s.config, s.received ++ more, s.unflushedRecords))
    (hpc : s'.pc ≠ .stopped → s.pc ≠ .stopped ∧ (∀ flush, s.pc = .sync flush → s'.pc = s.pc) ∧
      s'.pc.inHand = s.pc.inHand + more.length) : Unsynced s s' more := by
  obtain ⟨hconfig, hreceived, hunflushed⟩ : _ ∧ _ ∧ _ := by simpa using hsame
  refine ⟨hconfig, hreceived, fun hrun => ⟨(hpc hrun).1, ?_⟩, fun h n hn hrun hsync => ?_⟩
  · rw [hunflushed, (hpc hrun).2.2, Nat.add_assoc]
  · rw [hunflushed]
    exact h n (hconfig ▸ hn) (hpc hrun).1 fun flush hflush =>
      hsync flush (((hpc hrun).2.1 flush hflush).trans hflush)

theorem step_unsynced (hs : step crc s a = some s') (ha : a ≠ .flushFile .ok) :
    ∃ more, Unsynced s s' more := by
  have hstop (t : State) (hc : t.config = s.config) (hr : t.received = s.received)
      (hu : t.unflushedRecords = s.unflushedRecords) : ∃ more, Unsynced s t.stop more :=
    ⟨[], .uncounted (by simp [State.stop, hc, hr, hu]) fun h => absurd rfl h⟩
  cases stepped_of_step hs with
  | caller => exact ⟨[], .uncounted (by simp) fun hrun => ⟨hrun, fun _ _ => rfl, rfl⟩⟩
  | recvBatch hpc =>
    refine ⟨_, .uncounted rfl fun _ => ?_⟩
    dsimp only
    split <;> simp [hpc, Pc.inHand, Pc.batch, batchRecords]
  | recvFlush hpc => exact ⟨[], .uncounted (by simp) fun _ => by simp [hpc, Pc.inHand, Pc.batch]⟩
  | rollFlushed result | synced result =>
    cases result with
    | ok => exact absurd rfl ha
    | failed reason => exact hstop _ rfl rfl rfl
  | flushed result hpc =>
    cases result with
    | ok => exact absurd rfl ha
    | failed reason =>
      exact ⟨[], .uncounted (by simp [State.flushFile]) fun _ => by simp [hpc, Pc.inHand, Pc.batch]⟩
  | notCreated | headTorn | notMoved | torn => exact hstop _ rfl rfl rfl
  | created hpc | headed hpc | moved hpc =>
    exact ⟨[], .uncounted (by simp) fun _ => by simp [hpc, Pc.inHand, Pc.batch]⟩
  | @wrote batch flush hpc =>
    have hlen := congrArg List.length
      (locationsFrom_ids s.currentSegmentSeq s.currentOffset (batchRecords batch))
    simp only [batchRecords, List.length_map] at hlen
    exact ⟨[], .uncounted (by simp) fun _ => by
      simp [hpc, Pc.inHand, Pc.batch, hlen, batchRecords]⟩
  | @indexed batch offsets flush elapsed hpc =>
    refine ⟨[], rfl, by simp, fun _ => ⟨by simp [hpc], ?_⟩, fun _ n hn _ hsync => ?_⟩
    · simp [hpc, Pc.inHand]
    · -- below the threshold, or the next program counter were a sync
      dsimp only at hn hsync ⊢
      split at hsync
      · exact absurd rfl (hsync flush)
      · rename_i hnot
        simp only [shouldSync, hn, Option.any_some, Bool.or_eq_true, decide_eq_true_eq,
          not_or] at hnot
        omega

/-- What a successful `flush_file` leaves, wherever it was called. -/
theorem step_flushFile_ok (hs : step crc s (.flushFile .ok) = some s') :
    s'.config = s.config ∧ s'.unflushedRecords = 0 ∧ s'.pc ≠ .stopped ∧
      s'.pc.inHand = s'.pc.batch.length ∧ s'.dir = s.dir.modify s'.fileSeq SegFile.syncData := by
  cases stepped_of_step hs with
  | caller ha => cases ha
  | rollFlushed | flushed => exact ⟨rfl, rfl, nofun, rfl, rfl⟩
  | @synced flush => cases flush <;> exact ⟨rfl, rfl, nofun, rfl, rfl⟩

/-! ## The window -/

/-- After a sync every record of the layout is durable. -/
theorem Inv.durable_of_syncData {Base : Bytes → Prop} (h : Inv crc origin Base s L)
    (h₀ : origin.records = []) {dir : Dir SegFile}
    (hdir : s.dir = dir.modify s.fileSeq SegFile.syncData) {r : WalRecord} (hr : r ∈ L.records) :
    L.Durable r := by
  refine Layout.durable_of_synced (h.acks h₀).closed (fun _ => ?_) hr
  have hfile := h.mem_files L.active_mem
  rw [hdir, Dir.find?_modify] at hfile
  obtain ⟨f, -, hf⟩ := Option.map_eq_some_iff.mp hfile
  rw [if_pos h.disk.fileSeq.symm] at hf
  obtain ⟨hbytes, hsynced⟩ := SegFile.mk.inj hf
  rw [← hsynced, hbytes]
  exact L.active.stop_le_length crc

/-- All but the last records received are durable: those counted as
unflushed, and those in hand. -/
structure Window (crc : Bytes → UInt32) (origin : Origin) (config : WalConfig) (s : State)
    (front back : List WalRecord) : Prop where
  config : s.config = config
  received : s.received = front ++ back
  short : s.pc ≠ .stopped → back.length ≤ s.unflushedRecords + s.pc.inHand
  durable : ∃ L, Inv crc origin (fun _ => True) (s.noting front) L
  belowDue : s.BelowDue

theorem Window.step {config : WalConfig} {front back : List WalRecord}
    (h : Window crc origin config s front back) (h₀ : origin.records = [])
    (hs : Wal.step crc s a = some s') :
    ∃ front' back', Window crc origin config s' front' back' := by
  obtain ⟨L, hL⟩ := h.durable
  obtain ⟨L', hL'⟩ := hL.step trivial (step_noting front hs)
  by_cases ha : a = .flushFile .ok
  · subst ha
    obtain ⟨hconfig, hunflushed, hrun, hhand, hdir⟩ := step_flushFile_ok hs
    have hlog := hL'.log.running hrun
    rw [h₀, List.nil_append] at hlog
    refine ⟨L'.records, batchRecords s'.pc.batch, hconfig.trans h.config, hlog.symm, fun _ => ?_,
      ⟨L', ?_⟩, ?_⟩
    · rw [hhand, batchRecords, List.length_map]
      exact Nat.le_add_left _ _
    · refine ⟨{ hL'.disk with }, { hL'.index with }, { hL'.log with }, { hL'.requests with },
        fun _ => { hL'.acks h₀ with flushAnswers := fun rs hrs r hr => ?_ }⟩
      rcases List.mem_cons.mp hrs with hrs | hrs
      · cases hrs
        exact hL'.durable_of_syncData h₀ hdir hr
      · exact (hL'.acks h₀).flushAnswers rs (List.mem_cons_of_mem _ hrs) r hr
    · intro n _ _ _
      rw [hunflushed]
      exact Nat.zero_le _
  · obtain ⟨more, hmore⟩ := step_unsynced hs ha
    refine ⟨front, back ++ more, hmore.config.trans h.config, ?_, fun hrun => ?_, ⟨L', hL'⟩,
      hmore.belowDue h.belowDue⟩
    · rw [hmore.received, h.received, List.append_assoc]
    · obtain ⟨hrun', hcount⟩ := hmore.counted hrun
      have := h.short hrun'
      rw [List.length_append]
      omega

end BlipMQ.Wal
