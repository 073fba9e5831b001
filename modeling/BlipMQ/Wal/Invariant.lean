import Mathlib.Data.List.Perm.Basic
import BlipMQ.Wal.Layout

/-!
# WAL — the invariant of the running log

`Inv` ties a state of the appenders and the writer to the layout of its
directory. It is established by opening a log, and every step keeps it,
whatever the callers do and however the file operations end; `run_inv` is
the form the results below use.
-/

namespace BlipMQ.Wal

/-- What the layout starts from: the index entries it does not account for
itself, the records it does, all of them and segment by segment, the
segments before the tail and the number of the tail, the next id, and the
files as they were opened. -/
structure Origin where
  index : Index
  records : List WalRecord
  recordsOf : Nat → List WalRecord
  closed : List Seg
  tailSeq : Nat
  nextId : Nat
  fileOf : Nat → Bytes
  fits : ∀ r ∈ records, r.Fits

/-- The file of that number as it was opened; a later one starts out empty. -/
def Opened.fileOf (o : Opened) (seq : Nat) : Bytes := (o.dir.find? seq).getD []

def Opened.layout (o : Opened) (synced : Nat → Nat) (front : List (Nat × Bytes))
    (bytes : Bytes) : Layout where
  closed := front.map fun p => ⟨p.1, p.2, [], [], min (synced p.1) p.2.length⟩
  active := ⟨o.currentSeq, bytes.take o.currentOffset, [], bytes.drop o.currentOffset,
    min (synced o.currentSeq) bytes.length⟩
  stray := []

/-- All that was in the files counts as their `base`. -/
def Opened.origin (o : Opened) (L : Layout) : Origin :=
  ⟨o.index, [], fun _ => [], L.closed, o.currentSeq, o.nextId, o.fileOf, nofun⟩

def Pc.batch : Pc → List WalWriteRequest
  | .rollFlush batch _ | .rollCreate batch _ | .rollHeader batch _
  | .rollHeaderSync batch _ | .write batch _ => batch
  | .idle | .index _ _ _ | .sync _ | .flush | .stopped => []

/-- The batch that is written but not in the index yet, with its entries. -/
def Pc.unindexed : Pc → List WalWriteRequest × List (Nat × RecordLocation)
  | .index batch offsets _ => (batch, offsets)
  | _ => ([], [])

/-- Between the sync of the old segment and the move to the new one. -/
def Pc.Rolling : Pc → Prop
  | .rollCreate _ _ | .rollHeader _ _ | .rollHeaderSync _ _ => True
  | _ => False

theorem Pc.Rolling.unindexed {pc : Pc} (h : pc.Rolling) : pc.unindexed = ([], []) := by
  cases pc <;> first | rfl | exact h.elim

/-- The half-made next segment at each point of a roll. A failed one stays
behind with whatever part of the header reached it. -/
def StrayOk (seq : Nat) : Pc → List (Nat × SegFile) → Prop
  | .rollHeader _ _, stray => stray = [(seq + 1, ⟨[], 0⟩)]
  | .rollHeaderSync _ _, stray => stray = [(seq + 1, ⟨segmentHeader, 0⟩)]
  | .stopped, stray => stray = [] ∨ ∃ n, stray = [(seq + 1, ⟨segmentHeader.take n, 0⟩)]
  | _, stray => stray = []

theorem StrayOk.cases {seq : Nat} {pc : Pc} {stray : List (Nat × SegFile)}
    (h : StrayOk seq pc stray) :
    stray = [] ∨ ∃ n, stray = [(seq + 1, ⟨segmentHeader.take n, 0⟩)] := by
  cases pc with
  | rollHeader batch flush => exact .inr ⟨0, h⟩
  | rollHeaderSync batch flush => exact .inr ⟨headerLen, h⟩
  | stopped => exact h
  | idle | rollFlush | rollCreate | write | index | sync | flush => exact .inl h

def channelRecords (channel : List WalMessage) : List WalRecord :=
  channel.filterMap fun
    | .record request => some request.record
    | .flush => none

/-- The records of all requests the callers have built and not lost. -/
def State.requests (s : State) : List WalRecord :=
  s.received ++ channelRecords s.channel ++ batchRecords s.building

section Invariant

variable (crc : Bytes → UInt32) (origin : Origin) (Base : Bytes → Prop)

/-- The older bytes behind the records written since. -/
def TailOk (seg : Seg) : Prop := seg.tail = (origin.fileOf seg.seq).drop seg.stop

/-- The same, after a last write of received records that may have been cut short. -/
def TornTail (received : List WalRecord) (L : Layout) : Prop :=
  ∃ batch written, L.records ++ batch <+: origin.records ++ received ∧
    L.active.tail = (encodeRecords crc batch).take written ++
      ((origin.fileOf L.active.seq).drop L.active.stop).drop
        ((encodeRecords crc batch).take written).length

/-- The segments before the tail stay as they were, and the tail stays where
it was, active or closed. -/
def Kept (L : Layout) : Prop :=
  (L.closed = origin.closed ∧ L.active.seq = origin.tailSeq) ∨
    ∃ tail later, L.closed = origin.closed ++ tail :: later ∧ tail.seq = origin.tailSeq

/-- The directory and the cursor are those of the layout. -/
structure DiskOk (s : State) (L : Layout) : Prop where
  files : s.dir.files = L.files crc
  fileSeq : s.fileSeq = L.active.seq
  currentSeq : s.currentSegmentSeq = L.active.seq
  filePos : s.filePos = L.active.stop
  currentOffset : s.currentOffset = L.active.stop
  stray : StrayOk L.active.seq s.pc L.stray
  tails : ∀ seg ∈ L.closed, TailOk origin seg
  tail : s.pc ≠ .stopped → TailOk origin L.active
  fresh : ∀ seq, L.active.seq < seq → origin.fileOf seq = [] ∧ origin.recordsOf seq = []
  grown : ∀ seg ∈ L.segs, origin.recordsOf seg.seq <+: seg.records
  kept : Kept origin L
  base : ∀ seg ∈ L.segs, Base seg.base

/-- The index is that of the layout, up to a batch that is only written; none
of that is durable. -/
structure IndexOk (s : State) (L : Layout) : Prop where
  index : insertAll s.index s.pc.unindexed.2 = insertAll origin.index L.entries
  offsets : ∀ e ∈ s.pc.unindexed.2, e.2.segmentSeq = L.active.seq ∧
    L.active.synced ≤ e.2.offsetInSegment
  written : ∀ q ∈ s.pc.unindexed.1, q.record ∈ L.active.records

/-- The layout holds the received records in order, up to the batch in hand. -/
structure LogOk (s : State) (L : Layout) : Prop where
  running : s.pc ≠ .stopped →
    L.records ++ batchRecords s.pc.batch = origin.records ++ s.received
  torn : TornTail crc origin s.received L

/-- Ids are taken from a counter, so requests carry different ones. -/
structure RequestsOk (s : State) : Prop where
  nextId : s.nextId = (origin.nextId + s.taken) % 2 ^ 64
  range : ∀ r ∈ s.requests, ∃ k < s.taken, r.id = (origin.nextId + k) % 2 ^ 64
  nodup : s.taken ≤ 2 ^ 64 → (s.requests.map WalRecord.id).Nodup
  len : ∀ r ∈ s.requests, r.payload.length < 2 ^ 32
  order : s.pc ≠ .stopped → s.accepted = s.received ++ channelRecords s.channel

/-- Whatever was answered `Ok` is durable. This is about the records of this
process, so about layouts that start without any. -/
structure AcksOk (s : State) (L : Layout) : Prop where
  closed : ∀ seg ∈ L.closed, seg.Synced
  rolling : s.pc.Rolling → L.active.Synced
  pending : ∀ q ∈ s.pendingDurableAcks,
    (∃ flush, s.pc = .sync flush) ∧ q.record ∈ L.active.records
  answers : ∀ q, (q, .ok ()) ∈ s.answers → L.Durable q.record
  flushAnswers : ∀ rs, (rs, .ok ()) ∈ s.flushAnswers → ∀ r ∈ rs, L.Durable r

structure Inv (s : State) (L : Layout) : Prop where
  disk : DiskOk crc origin Base s L
  index : IndexOk origin s L
  log : LogOk crc origin s L
  requests : RequestsOk origin s
  acks : origin.records = [] → AcksOk s L

variable {crc origin Base} {s s' : State} {L : Layout}

theorem Kept.roll (h : Kept origin L) (seg : Seg) : Kept origin (L.roll seg) := by
  rcases h with ⟨hclosed, hseq⟩ | ⟨tail, later, hclosed, hseq⟩
  · exact .inr ⟨L.active, [], by rw [Layout.roll, hclosed], hseq⟩
  · exact .inr ⟨tail, later ++ [L.active], by simp [Layout.roll, hclosed], hseq⟩

theorem Kept.segs (h : Kept origin L) :
    ∃ tail later, L.segs = origin.closed ++ tail :: later ∧ tail.seq = origin.tailSeq := by
  rcases h with ⟨hclosed, hseq⟩ | ⟨tail, later, hclosed, hseq⟩
  · exact ⟨L.active, [], by rw [Layout.segs, hclosed], hseq⟩
  · exact ⟨tail, later ++ [L.active], by simp [Layout.segs, hclosed], hseq⟩

variable {received : List WalRecord} {batch : List WalWriteRequest} {r : WalRecord}

theorem TailOk.torn (h : TailOk origin L.active) (hlog : L.records <+: origin.records ++ received) :
    TornTail crc origin received L :=
  ⟨[], 0, by simpa using hlog, by simpa [TailOk] using h⟩

theorem TornTail.isPrefix (h : TornTail crc origin received L) :
    L.records <+: origin.records ++ received := by
  obtain ⟨batch, written, hpre, -⟩ := h
  exact (List.prefix_append _ _).trans hpre

theorem TornTail.mono {more : List WalRecord} (h : TornTail crc origin received L) :
    TornTail crc origin (received ++ more) L := by
  obtain ⟨batch, written, hpre, htail⟩ := h
  refine ⟨batch, written, hpre.trans ?_, htail⟩
  rw [← List.append_assoc]
  exact List.prefix_append _ _

theorem IndexOk.eq (h : IndexOk origin s L) (hpc : s.pc.unindexed = ([], [])) :
    s.index = insertAll origin.index L.entries := by
  have := h.index
  rwa [hpc] at this

/-- Steps that leave index and records alone. -/
theorem IndexOk.congr {L' : Layout} (h : IndexOk origin s L) (hpc : s.pc.unindexed = ([], []))
    (hindex : s'.index = s.index) (hpc' : s'.pc.unindexed = ([], []))
    (hL : L'.entries = L.entries) : IndexOk origin s' L' := by
  refine ⟨?_, by rw [hpc']; nofun, by rw [hpc']; nofun⟩
  rw [hpc', hindex, hL]
  exact h.eq hpc

/-! ## Requests -/

theorem RequestsOk.fits (h : RequestsOk origin s) (hr : r ∈ s.requests) : r.Fits := by
  obtain ⟨k, -, hid⟩ := h.range r hr
  exact ⟨hid ▸ Nat.mod_lt _ (by decide), h.len r hr⟩

theorem mem_requests_of_received (h : r ∈ s.received) : r ∈ s.requests := by
  simp [State.requests, h]

/-- Moving requests along, or losing some, keeps them in order. -/
theorem RequestsOk.subperm (h : RequestsOk origin s) (hsub : s'.requests.Subperm s.requests)
    (hnext : s'.nextId = s.nextId) (htaken : s'.taken = s.taken)
    (horder : s'.pc ≠ .stopped → s'.accepted = s'.received ++ channelRecords s'.channel) :
    RequestsOk origin s' where
  nextId := by rw [hnext, htaken, h.nextId]
  range := fun r hr => by rw [htaken]; exact h.range r (hsub.subset hr)
  nodup := fun hle => by
    obtain ⟨l, hperm, hlist⟩ := hsub
    have hl : (l.map WalRecord.id).Nodup := (h.nodup (htaken ▸ hle)).sublist (hlist.map _)
    exact ((hperm.map _).nodup_iff).mp hl
  len := fun r hr => h.len r (hsub.subset hr)
  order := horder

private theorem add_mod_ne {n j k : Nat} (hjk : j < k) (hk : k < 2 ^ 64) :
    (n + j) % 2 ^ 64 ≠ (n + k) % 2 ^ 64 := by
  omega

theorem RequestsOk.build (h : RequestsOk origin s) (data : Bytes) (durable : Bool) :
    RequestsOk origin (stepBuild s data durable) := by
  have hnext : (s.nextId + 1) % 2 ^ 64 = (origin.nextId + (s.taken + 1)) % 2 ^ 64 := by
    rw [h.nextId]; omega
  have hrange : ∀ r ∈ s.requests, ∃ k < s.taken + 1, r.id = (origin.nextId + k) % 2 ^ 64 := by
    intro r hr
    obtain ⟨k, hk, hid⟩ := h.range r hr
    exact ⟨k, Nat.lt_succ_of_lt hk, hid⟩
  by_cases hlen : 2 ^ 32 ≤ data.length
  · have hstep : stepBuild s data durable =
        { s with nextId := (s.nextId + 1) % 2 ^ 64, taken := s.taken + 1 } := by
      simp only [stepBuild, buildRequest, if_pos hlen]
    rw [hstep]
    exact ⟨hnext, hrange, fun hle => h.nodup (Nat.le_of_succ_le hle), h.len, h.order⟩
  · have hstep : stepBuild s data durable =
        { s with
          nextId := (s.nextId + 1) % 2 ^ 64
          taken := s.taken + 1
          building := s.building ++ [⟨⟨s.nextId, data⟩, durable⟩] } := by
      simp only [stepBuild, buildRequest, if_neg hlen]
    have hreq : (stepBuild s data durable).requests = s.requests ++ [⟨s.nextId, data⟩] := by
      simp [hstep, State.requests, batchRecords]
    refine ⟨?_, ?_, ?_, ?_, ?_⟩
    · rw [hstep]; exact hnext
    · rw [hreq, hstep]
      exact forall_mem_concat hrange ⟨s.taken, Nat.lt_succ_self _, h.nextId⟩
    · intro hle
      rw [hstep] at hle
      rw [hreq, List.map_append]
      refine List.nodup_append.mpr ⟨h.nodup (Nat.le_of_succ_le hle), List.nodup_singleton _, ?_⟩
      intro a ha b hb
      obtain ⟨r, hr, rfl⟩ := List.mem_map.mp ha
      obtain ⟨k, hk, hid⟩ := h.range r hr
      rw [hid, List.mem_singleton.mp hb, h.nextId]
      exact add_mod_ne hk hle
    · rw [hreq]
      exact forall_mem_concat h.len (Nat.not_le.mp hlen)
    · rw [hstep]; exact h.order

/-! ## Steps of the callers -/

theorem Inv.build (h : Inv crc origin Base s L) (data : Bytes) (durable : Bool) :
    Inv crc origin Base (stepBuild s data durable) L := by
  have hreq := h.requests.build data durable
  obtain ⟨n, t, b, hst⟩ : ∃ n t b,
      stepBuild s data durable = { s with nextId := n, taken := t, building := b } := by
    unfold stepBuild
    dsimp only
    split
    · exact ⟨_, _, s.building, rfl⟩
    · exact ⟨_, _, _, rfl⟩
  rw [hst] at hreq ⊢
  exact ⟨{ h.disk with }, { h.index with }, { h.log with }, hreq, fun h₀ => { h.acks h₀ with }⟩

theorem Inv.send (h : Inv crc origin Base s L) {i : Nat} (hs : stepSend s i = some s') :
    Inv crc origin Base s' L := by
  unfold stepSend at hs
  split at hs
  · cases hs
  · rename_i request hget
    obtain ⟨hi, hget⟩ := List.getElem?_eq_some_iff.mp hget
    dsimp only at hs
    split at hs
    · cases hs
      refine ⟨{ h.disk with }, { h.index with }, { h.log with }, ?_, fun h₀ => { h.acks h₀ with }⟩
      refine h.requests.subperm ?_ rfl rfl h.requests.order
      exact (((List.eraseIdx_sublist s.building i).map _).append_left _).subperm
    · cases hs
      refine ⟨{ h.disk with }, { h.index with }, { h.log with }, ?_, fun h₀ => { h.acks h₀ with }⟩
      refine h.requests.subperm (List.Perm.subperm ?_) rfl rfl ?_
      · have hperm : (request :: s.building.eraseIdx i).Perm s.building :=
          hget ▸ List.getElem_cons_eraseIdx_perm hi
        simp only [State.requests, channelRecords, List.filterMap_append, List.filterMap_cons,
          List.filterMap_nil, List.append_assoc, batchRecords]
        refine List.Perm.append_left _ (List.Perm.append_left _ ?_)
        exact hperm.map WalWriteRequest.record
      · intro hpc
        simp [channelRecords, h.requests.order hpc]

theorem Inv.sendFlush (h : Inv crc origin Base s L) (hs : stepSendFlush s = some s') :
    Inv crc origin Base s' L := by
  unfold stepSendFlush at hs
  split at hs
  · cases hs
  · cases hs
    refine ⟨{ h.disk with }, { h.index with }, { h.log with }, ?_, fun h₀ => { h.acks h₀ with }⟩
    refine h.requests.subperm (List.Perm.subperm ?_) rfl rfl ?_
    · simp [State.requests, channelRecords]
    · intro hpc
      simp [channelRecords, h.requests.order hpc]

/-! ## Receiving -/

theorem AcksOk.pending_nil (h : AcksOk s L) (hpc : ∀ flush, s.pc ≠ .sync flush) :
    s.pendingDurableAcks = [] := by
  refine List.eq_nil_iff_forall_not_mem.mpr fun q hq => ?_
  obtain ⟨⟨flush, hf⟩, -⟩ := h.pending q hq
  exact hpc flush hf

theorem channelRecords_collectBatch (more : Nat) (channel : List WalMessage) :
    channelRecords channel = batchRecords (collectBatch more channel).1 ++
      channelRecords (collectBatch more channel).2.2 := by
  induction more generalizing channel with
  | zero => rfl
  | succ more ih =>
    match channel with
    | [] => rfl
    | .flush :: channel => simp [collectBatch, channelRecords, batchRecords]
    | .record request :: channel =>
      have := ih channel
      simp only [channelRecords, batchRecords] at this
      simp [collectBatch, channelRecords, batchRecords, this]

/-- Between two batches all that was received is in the layout. -/
theorem Inv.between (h : Inv crc origin Base s L) (hpc : s.pc = .idle ∨ s.pc = .flush) :
    s.pc ≠ .stopped ∧ L.stray = [] ∧ L.records = origin.records ++ s.received := by
  have hrun : s.pc ≠ .stopped := by rcases hpc with hpc | hpc <;> simp [hpc]
  have hstray := h.disk.stray
  have hlog := h.log.running hrun
  rcases hpc with hpc | hpc <;> rw [hpc] at hstray hlog <;>
    exact ⟨hrun, hstray, by simpa [Pc.batch, batchRecords] using hlog⟩

theorem Inv.recv (h : Inv crc origin Base s L) {more : Nat}
    (hs : Stepped crc s (.recv more) s') : Inv crc origin Base s' L := by
  cases hs with
  | caller ha => cases ha
  | @recvBatch _ first channel hpc hch =>
    obtain ⟨hrun, hstray, hlog⟩ := h.between (.inl hpc)
    have hcoll := channelRecords_collectBatch more channel
    have hpend := fun h₀ => (h.acks h₀).pending_nil (by rw [hpc]; nofun)
    generalize hp : (if s.mustRoll (first :: (collectBatch more channel).1) then
      Pc.rollFlush (first :: (collectBatch more channel).1) (collectBatch more channel).2.1
      else .write (first :: (collectBatch more channel).1) (collectBatch more channel).2.1) = pc
    -- both ways on carry the batch, and neither is a roll in progress
    have hpc' : pc.batch = first :: (collectBatch more channel).1 ∧ ¬ pc.Rolling ∧
        pc.unindexed = ([], []) ∧ StrayOk L.active.seq pc L.stray := by
      rw [← hp]
      split <;> exact ⟨rfl, nofun, rfl, hstray⟩
    obtain ⟨hbatch, hroll, hun, hstrayOk⟩ := hpc'
    refine ⟨{ h.disk with stray := hstrayOk, tail := fun _ => h.disk.tail hrun },
      h.index.congr (by rw [hpc]; rfl) rfl hun rfl, ⟨?_, h.log.torn.mono⟩, ?_,
      fun h₀ => { h.acks h₀ with
        rolling := fun hr => absurd hr hroll
        pending := by rw [hpend h₀]; nofun }⟩
    · intro _
      simp only [hbatch, hlog, List.append_assoc]
    · refine h.requests.subperm (List.Perm.subperm ?_) rfl rfl ?_
      · simp only [State.requests, hch]
        simp [channelRecords, batchRecords] at hcoll ⊢
        simp [hcoll]
      · intro _
        simp only [h.requests.order hrun, hch]
        simp [channelRecords, batchRecords] at hcoll ⊢
        simp [hcoll]
  | recvFlush hpc hch =>
    have hrun : s.pc ≠ .stopped := by rw [hpc]; nofun
    have hlog := h.log.running hrun
    have hstray := h.disk.stray
    rw [hpc] at hlog hstray
    refine ⟨{ h.disk with stray := hstray, tail := fun _ => h.disk.tail hrun },
      h.index.congr (by rw [hpc]; rfl) rfl rfl rfl, ⟨fun _ => hlog, h.log.torn⟩, ?_,
      fun h₀ => { h.acks h₀ with
        rolling := nofun
        pending := by rw [(h.acks h₀).pending_nil (by rw [hpc]; nofun)]; nofun }⟩
    · refine h.requests.subperm (List.Perm.subperm ?_) rfl rfl ?_
      · simp [State.requests, hch, channelRecords]
      · intro _
        simp [h.requests.order hrun, hch, channelRecords]

/-! ## Syncing -/

theorem DiskOk.withPc (h : DiskOk crc origin Base s L) (hrun : s.pc ≠ .stopped) (pc : Pc)
    (hstray : StrayOk L.active.seq pc L.stray) :
    DiskOk crc origin Base { s with pc := pc } L :=
  { h with stray := hstray, tail := fun _ => h.tail hrun }

variable {result : IoResult} {flush : Bool} {o : Opened} {seg : Seg}

/-- A file operation on the active segment, with no other file behind it. -/
theorem DiskOk.modify_files (h : DiskOk crc origin Base s L) (hstray : L.stray = [])
    {f : SegFile → SegFile} (hseg : seg.file crc = (L.active.seq, f (L.active.file crc).2)) :
    (s.dir.modify s.fileSeq f).files = (L.setActive seg).files crc := by
  have hfiles : s.dir.files = L.closed.map (Seg.file crc) ++
      [(s.fileSeq, (L.active.file crc).2)] := by
    rw [h.files, L.files_eq, hstray, List.append_nil, h.fileSeq]
    rfl
  rw [Dir.modify_files hfiles, Layout.files_eq, h.fileSeq, ← hseg]
  simp [Layout.setActive, hstray]

theorem Layout.records_setActive (h : seg.records = L.active.records) :
    (L.setActive seg).records = L.records := by
  simp [Layout.records_eq, Layout.setActive, h]

theorem Layout.entries_setActive (h : seg.entries = L.active.entries) :
    (L.setActive seg).entries = L.entries := by
  simp [Layout.entries_eq, Layout.setActive, h]

theorem Layout.durable_of_synced (hclosed : ∀ seg ∈ L.closed, seg.Synced)
    (hactive : L.active.Synced) (hr : r ∈ L.records) : L.Durable r := by
  obtain ⟨seg, hseg, hr⟩ := List.mem_flatMap.mp hr
  rcases Layout.mem_segs.mp hseg with h | rfl
  · exact ⟨seg, hseg, (hclosed seg h).durable hr⟩
  · exact ⟨_, hseg, hactive.durable hr⟩

/-- The layout after a successful `flush_file`. -/
def Layout.flushed (crc : Bytes → UInt32) (L : Layout) : Layout :=
  L.setActive (L.active.syncAll crc)

theorem Layout.Durable.flushed (h : L.Durable r) : (L.flushed crc).Durable r :=
  Layout.Durable.setActive h fun hd => hd.syncAll crc

theorem DiskOk.flushFile (h : DiskOk crc origin Base s L) (hstray : L.stray = []) :
    DiskOk crc origin Base (s.flushFile .ok) (L.flushed crc) where
  files := h.modify_files hstray (L.active.syncAll_file crc)
  fileSeq := h.fileSeq
  currentSeq := h.currentSeq
  filePos := h.filePos
  currentOffset := h.currentOffset
  stray := h.stray
  tails := h.tails
  tail := h.tail
  fresh := h.fresh
  grown := Layout.forall_setActive h.grown (h.grown L.active L.active_mem)
  kept := h.kept
  base := Layout.forall_setActive h.base (h.base L.active L.active_mem)

/-- A successful `flush_file` makes every received record durable, and it
answers what was pending. -/
theorem AcksOk.flushFile (h : AcksOk s L) (pc : Pc) :
    AcksOk { s.flushFile .ok with pc := pc } (L.flushed crc) where
  closed := h.closed
  rolling := fun _ => L.active.syncAll_synced crc
  pending := fun q hq => by simp [State.flushFile] at hq
  answers := fun q hq => by
    simp only [State.flushFile, List.mem_append, List.mem_map, Prod.mk.injEq] at hq
    rcases hq with hq | ⟨q', hq', rfl, -⟩
    · exact (h.answers q hq).flushed
    · obtain ⟨-, hr⟩ := h.pending q' hq'
      exact ⟨L.active.syncAll crc, by simp [Layout.flushed],
        (L.active.syncAll_synced crc).durable hr⟩
  flushAnswers := fun rs hrs r hr => (h.flushAnswers rs hrs r hr).flushed

/-- A failed `flush_file` leaves the files as they are and answers no `Ok`. -/
theorem AcksOk.flushFile_failed (h : AcksOk s L) (reason : String) (pc : Pc)
    (hroll : ¬ pc.Rolling) : AcksOk { s.flushFile (.failed reason) with pc := pc } L where
  closed := h.closed
  rolling := fun hr => absurd hr hroll
  pending := fun q hq => by simp [State.flushFile] at hq
  answers := fun q hq => by
    simp only [State.flushFile, List.mem_append, List.mem_map, Prod.mk.injEq, reduceCtorEq,
      and_false, exists_false, or_false] at hq
    exact h.answers q hq
  flushAnswers := h.flushAnswers

/-- A state in which the writer has returned. -/
theorem RequestsOk.stop (h : RequestsOk origin s) : RequestsOk origin s.stop := by
  refine h.subperm (List.Sublist.subperm ?_) rfl rfl (fun hpc => absurd rfl hpc)
  simp only [State.requests, State.stop, channelRecords, List.filterMap_nil, List.append_nil]
  exact (List.sublist_append_left _ _).append_right _

theorem AcksOk.stop (h : AcksOk s L) : AcksOk s.stop L :=
  { h with rolling := nofun, pending := nofun }

theorem LogOk.stop (h : LogOk crc origin s L) : LogOk crc origin s.stop L :=
  ⟨fun hpc => absurd rfl hpc, h.torn⟩

theorem Inv.stop (h : Inv crc origin Base s L) (hpc : s.pc.unindexed = ([], []))
    (hstray : StrayOk L.active.seq .stopped L.stray) : Inv crc origin Base s.stop L :=
  ⟨{ h.disk with stray := hstray, tail := fun hpc => absurd rfl hpc },
    h.index.congr hpc rfl rfl rfl, h.log.stop, h.requests.stop, fun h₀ => (h.acks h₀).stop⟩

/-- Requests are not touched by file operations. -/
theorem RequestsOk.congr (h : RequestsOk origin s) (hreq : s'.requests = s.requests)
    (hnext : s'.nextId = s.nextId) (htaken : s'.taken = s.taken)
    (hacc : s'.accepted = s.accepted) (hrec : s'.received = s.received)
    (hch : s'.channel = s.channel) (hrun : s.pc ≠ .stopped) : RequestsOk origin s' :=
  h.subperm (hreq ▸ List.Perm.subperm (List.Perm.refl _)) hnext htaken
    fun _ => by rw [hacc, hrec, hch]; exact h.order hrun

theorem Layout.flushed_records : (L.flushed crc).records = L.records :=
  Layout.records_setActive rfl

theorem Layout.flushed_entries : (L.flushed crc).entries = L.entries :=
  Layout.entries_setActive rfl

theorem TornTail.flushed (h : TornTail crc origin received L) :
    TornTail crc origin received (L.flushed crc) := by
  obtain ⟨batch, written, hpre, htail⟩ := h
  exact ⟨batch, written, by rwa [Layout.flushed_records], htail⟩

theorem Inv.flushThen (h : Inv crc origin Base s L) (hrun : s.pc ≠ .stopped)
    (hstray : L.stray = []) (hun : s.pc.unindexed = ([], [])) (result : IoResult) {pc : Pc}
    (hpc : StrayOk L.active.seq pc []) (hbatch : pc.batch = s.pc.batch)
    (hun' : pc.unindexed = ([], [])) :
    ∃ L', Inv crc origin Base (s.flushThen result pc) L' := by
  cases result with
  | ok =>
    refine ⟨L.flushed crc, (h.disk.flushFile hstray).withPc hrun _ (hstray ▸ hpc),
      h.index.congr hun rfl hun' Layout.flushed_entries, ⟨fun _ => ?_, ?_⟩,
      h.requests.congr rfl rfl rfl rfl rfl rfl hrun, fun h₀ => (h.acks h₀).flushFile pc⟩
    · show (L.flushed crc).records ++ batchRecords pc.batch = origin.records ++ s.received
      rw [Layout.flushed_records, hbatch, h.log.running hrun]
    · exact h.log.torn.flushed
  | failed reason =>
    have hreq : RequestsOk origin (s.flushFile (.failed reason)) :=
      h.requests.congr rfl rfl rfl rfl rfl rfl hrun
    exact ⟨L, { h.disk with stray := .inl hstray, tail := fun hp => absurd rfl hp },
      h.index.congr hun rfl rfl rfl, ⟨fun hp => absurd rfl hp, h.log.torn⟩, hreq.stop,
      fun h₀ => ((h.acks h₀).flushFile_failed reason .idle nofun).stop⟩

/-- A flush request: its answer covers everything received before it. -/
theorem Inv.flushRequest (h : Inv crc origin Base s L) (hpc : s.pc = .flush)
    (result : IoResult) : ∃ L', Inv crc origin Base { s.flushFile result with
      flushAnswers := s.flushAnswers ++ [(s.received, result.toExcept)]
      pc := .idle } L' := by
  obtain ⟨hrun, hstray, hlog⟩ := h.between (.inr hpc)
  have hun : s.pc.unindexed = ([], []) := by rw [hpc]; rfl
  cases result with
  | ok =>
    have hacks : origin.records = [] →
        AcksOk { s.flushFile .ok with pc := .idle } (L.flushed crc) :=
      fun h₀ => (h.acks h₀).flushFile .idle
    refine ⟨L.flushed crc, { (h.disk.flushFile hstray).withPc hrun .idle hstray with },
      h.index.congr hun rfl rfl Layout.flushed_entries, ⟨fun _ => ?_, ?_⟩,
      h.requests.congr rfl rfl rfl rfl rfl rfl hrun,
      fun h₀ => { hacks h₀ with flushAnswers := ?_ }⟩
    · show (L.flushed crc).records ++ [] = origin.records ++ s.received
      rw [Layout.flushed_records, List.append_nil, hlog]
    · exact h.log.torn.flushed
    · intro rs hrs r hr
      rcases List.mem_append.mp hrs with hrs | hrs
      · exact (hacks h₀).flushAnswers rs hrs r hr
      · obtain rfl : rs = s.received := (Prod.mk.inj (List.mem_singleton.mp hrs)).1
        exact Layout.durable_of_synced (hacks h₀).closed (L.active.syncAll_synced crc)
          (by rwa [Layout.flushed_records, hlog, h₀])
  | failed reason =>
    have hacks := fun h₀ => (h.acks h₀).flushFile_failed reason .idle nofun
    refine ⟨L, { h.disk.withPc hrun .idle hstray with }, h.index.congr hun rfl rfl rfl,
      ⟨fun _ => ?_, h.log.torn⟩,
      h.requests.congr rfl rfl rfl rfl rfl rfl hrun,
      fun h₀ => { hacks h₀ with flushAnswers := ?_ }⟩
    · show L.records ++ [] = origin.records ++ s.received
      rw [List.append_nil, hlog]
    · intro rs hrs r hr
      rcases List.mem_append.mp hrs with hrs | hrs
      · exact (hacks h₀).flushAnswers rs hrs r hr
      · simp [IoResult.toExcept] at hrs

theorem Inv.flushFile (h : Inv crc origin Base s L) (hs : Stepped crc s (.flushFile result) s') :
    ∃ L', Inv crc origin Base s' L' := by
  cases hs with
  | caller ha => cases ha
  | rollFlushed _ hpc =>
    have hstray : L.stray = [] := by simpa [StrayOk, hpc] using h.disk.stray
    exact h.flushThen (by rw [hpc]; nofun) hstray (by rw [hpc]; rfl) result rfl
      (by rw [hpc]; rfl) rfl
  | @synced flush _ hpc =>
    have hstray : L.stray = [] := by simpa [StrayOk, hpc] using h.disk.stray
    refine h.flushThen (by rw [hpc]; nofun) hstray (by rw [hpc]; rfl) result ?_ ?_ ?_
    · cases flush <;> rfl
    · rw [hpc]; cases flush <;> rfl
    · cases flush <;> rfl
  | flushed _ hpc => exact h.flushRequest hpc result

/-! ## Rolling to the next segment -/

def Layout.withStray (L : Layout) (stray : List (Nat × SegFile)) : Layout :=
  { L with stray := stray }

/-- The half-made next segment changes; everything else stays. -/
theorem Inv.withStray (h : Inv crc origin Base s L) (hrun : s.pc ≠ .stopped)
    {stray : List (Nat × SegFile)} {dir : Dir SegFile} {pc : Pc}
    (hdir : dir.files = (L.withStray stray).files crc) (hstray : StrayOk L.active.seq pc stray)
    (hbatch : pc.batch = s.pc.batch) (hroll : s.pc.Rolling) (hun : pc.unindexed = ([], [])) :
    Inv crc origin Base { s with dir := dir, pc := pc } (L.withStray stray) := by
  refine ⟨{ h.disk with files := hdir, stray := hstray, tail := fun _ => h.disk.tail hrun },
    h.index.congr hroll.unindexed rfl hun rfl,
    ⟨fun _ => ?_, h.log.torn⟩, h.requests.congr rfl rfl rfl rfl rfl rfl hrun,
    fun h₀ => { h.acks h₀ with
      rolling := fun _ => (h.acks h₀).rolling hroll
      pending := ?_ }⟩
  · show L.records ++ batchRecords pc.batch = origin.records ++ s.received
    rw [hbatch, h.log.running hrun]
  · show ∀ q ∈ s.pendingDurableAcks, _
    rw [(h.acks h₀).pending_nil fun flush hsync => by rw [hsync] at hroll; exact hroll]
    nofun

/-- A roll that fails on the half-made segment ends the task. -/
theorem Inv.withStray_stop (h : Inv crc origin Base s L) (hroll : s.pc.Rolling)
    {stray : List (Nat × SegFile)} {dir : Dir SegFile}
    (hdir : dir.files = (L.withStray stray).files crc)
    (hstray : StrayOk L.active.seq .stopped stray) :
    Inv crc origin Base ({ s with dir := dir }.stop) (L.withStray stray) :=
  ⟨{ h.disk with files := hdir, stray := hstray, tail := fun hp => absurd rfl hp },
    h.index.congr hroll.unindexed rfl rfl rfl,
    ⟨fun hp => absurd rfl hp, h.log.torn⟩, { h.requests.stop with },
    fun h₀ => { (h.acks h₀).stop with }⟩

/-- With no half-made segment, the active one has the highest number. -/
theorem DiskOk.lt_next (h : DiskOk crc origin Base s L) (hstray : L.stray = []) :
    ∀ p ∈ s.dir.files, p.1 < s.currentSegmentSeq + 1 := by
  have hfiles : s.dir.files = L.closed.map (Seg.file crc) ++ [L.active.file crc] := by
    rw [h.files, L.files_eq, hstray, List.append_nil]
  intro p hp
  rw [h.currentSeq]
  exact Nat.lt_succ_of_le (Dir.le_last hfiles hp)

theorem Inv.create (h : Inv crc origin Base s L) (hs : Stepped crc s (.createSegment result) s') :
    ∃ L', Inv crc origin Base s' L' := by
  cases hs with
  | caller ha => cases ha
  | notCreated hpc =>
    have hstray : L.stray = [] := by simpa [StrayOk, hpc] using h.disk.stray
    exact ⟨L, h.stop (by rw [hpc]; rfl) (.inl hstray)⟩
  | created hpc hcreate =>
    have hrun : s.pc ≠ .stopped := by rw [hpc]; nofun
    have hstray : L.stray = [] := by simpa [StrayOk, hpc] using h.disk.stray
    have hlt := h.disk.lt_next hstray
    rw [Dir.create_eq_of_gt hlt] at hcreate
    cases hcreate
    refine ⟨L.withStray [(L.active.seq + 1, ⟨[], 0⟩)], h.withStray hrun ?_ rfl ?_ ?_ rfl⟩
    · rw [Dir.insert_files_of_gt hlt, h.disk.files, L.files_eq, hstray, h.disk.currentSeq,
        Layout.files_eq]
      simp [Layout.withStray]
    · rw [hpc]; rfl
    · rw [hpc]; trivial

/-- A file operation on the half-made next segment. -/
theorem DiskOk.modify_stray (h : DiskOk crc origin Base s L) {f : SegFile} (g : SegFile → SegFile)
    (hstray : L.stray = [(L.active.seq + 1, f)]) :
    (s.dir.modify (s.currentSegmentSeq + 1) g).files =
      (L.withStray [(L.active.seq + 1, g f)]).files crc := by
  have hfiles : s.dir.files = (L.closed.map (Seg.file crc) ++ [L.active.file crc]) ++
      [(s.currentSegmentSeq + 1, f)] := by
    rw [h.files, L.files_eq, hstray, h.currentSeq]
  rw [Dir.modify_files hfiles, Layout.files_eq, h.currentSeq]
  rfl

theorem writeAll_nil (data : Bytes) : SegFile.writeAll ⟨[], 0⟩ 0 data = ⟨data, 0⟩ := by
  simp [SegFile.writeAll, writeAt]

theorem Inv.writeHeader (h : Inv crc origin Base s L) {result : WriteResult}
    (hs : Stepped crc s (.writeHeader result) s') : ∃ L', Inv crc origin Base s' L' := by
  have hdir (batch flush) (hpc : s.pc = .rollHeader batch flush) (data : Bytes) :
      (s.dir.modify (s.currentSegmentSeq + 1) fun f => f.writeAll 0 data).files =
        (L.withStray [(L.active.seq + 1, ⟨data, 0⟩)]).files crc := by
    have hstray : L.stray = [(L.active.seq + 1, ⟨[], 0⟩)] := by
      simpa [StrayOk, hpc] using h.disk.stray
    rw [h.disk.modify_stray _ hstray, writeAll_nil]
  cases hs with
  | caller ha => cases ha
  | headed hpc =>
    exact ⟨_, h.withStray (by rw [hpc]; nofun) (hdir _ _ hpc segmentHeader) rfl (by rw [hpc]; rfl)
      (by rw [hpc]; trivial) rfl⟩
  | @headTorn batch flush written reason hpc =>
    exact ⟨_, h.withStray_stop (by rw [hpc]; trivial) (hdir _ _ hpc (segmentHeader.take written))
      (.inr ⟨written, rfl⟩)⟩

/-- The segment a completed roll starts. -/
def Seg.fresh (seq : Nat) : Seg := ⟨seq, segmentHeader, [], [], headerLen⟩

theorem Inv.syncHeader (h : Inv crc origin Base s L) (hbase : Base segmentHeader)
    (hs : Stepped crc s (.syncHeader result) s') : ∃ L', Inv crc origin Base s' L' := by
  have hstray (batch flush) (hpc : s.pc = .rollHeaderSync batch flush) :
      L.stray = [(L.active.seq + 1, ⟨segmentHeader, 0⟩)] := by
    simpa [StrayOk, hpc] using h.disk.stray
  cases hs with
  | caller ha => cases ha
  | notMoved hpc =>
    exact ⟨L, h.stop (by rw [hpc]; rfl) (.inr ⟨headerLen, by rw [hstray _ _ hpc]; rfl⟩)⟩
  | moved hpc =>
    have hrun : s.pc ≠ .stopped := by rw [hpc]; simp
    have hlog := h.log.running hrun
    rw [hpc] at hlog
    have hrecords : (L.roll (Seg.fresh (L.active.seq + 1))).records = L.records := by
      simp [Layout.records, Seg.fresh]
    have hentries : (L.roll (Seg.fresh (L.active.seq + 1))).entries = L.entries := by
      simp [Layout.entries, Seg.fresh, Seg.entries, locationsFrom, located]
    have hseq : s.currentSegmentSeq + 1 = L.active.seq + 1 := by rw [h.disk.currentSeq]
    have htail : TailOk origin (Seg.fresh (L.active.seq + 1)) := by
      simp [TailOk, Seg.fresh, (h.disk.fresh (L.active.seq + 1) (Nat.lt_succ_self _)).1]
    refine ⟨L.roll (Seg.fresh (L.active.seq + 1)), ?_,
      h.index.congr (by rw [hpc]; rfl) rfl rfl hentries, ⟨fun _ => ?_, ?_⟩,
      h.requests.congr rfl rfl rfl rfl rfl rfl hrun, ?_⟩
    · refine ⟨?_, hseq, hseq, rfl, rfl, rfl, ?_, fun _ => htail,
        ?_, ?_, h.disk.kept.roll _, ?_⟩
      · show (s.dir.modify (s.currentSegmentSeq + 1) SegFile.syncData).files = _
        rw [h.disk.modify_stray _ (hstray _ _ hpc)]
        simp [Layout.files, Layout.withStray, Layout.roll, Layout.segs, Seg.file, Seg.bytes,
          Seg.fresh, SegFile.syncData]
      · exact forall_mem_concat h.disk.tails (h.disk.tail hrun)
      · exact fun seq hlt => h.disk.fresh seq (Nat.lt_of_succ_lt hlt)
      · refine forall_mem_concat h.disk.grown ?_
        exact (h.disk.fresh _ (Nat.lt_succ_self _)).2 ▸ List.nil_prefix
      · exact forall_mem_concat h.disk.base hbase
    · rw [hrecords]; exact hlog
    · refine htail.torn ?_
      rw [hrecords]
      exact h.log.torn.isPrefix
    · intro h₀
      refine ⟨?_, False.elim, ?_, ?_, ?_⟩
      · exact forall_mem_concat (h.acks h₀).closed ((h.acks h₀).rolling (by rw [hpc]; trivial))
      · show ∀ q ∈ s.pendingDurableAcks, _
        rw [(h.acks h₀).pending_nil (by rw [hpc]; simp)]
        simp
      · exact fun q hq => ((h.acks h₀).answers q hq).roll _
      · exact fun rs hrs r hr => ((h.acks h₀).flushAnswers rs hrs r hr).roll _

/-! ## Writing a batch -/

theorem Inv.log_write (h : Inv crc origin Base s L) (hpc : s.pc = .write batch flush) :
    L.records ++ batchRecords batch = origin.records ++ s.received := by
  simpa [hpc, Pc.batch] using h.log.running (by rw [hpc]; simp)

/-- The bytes that reached the file end in the middle of the batch. -/
theorem Inv.tearBatch (h : Inv crc origin Base s L) (hpc : s.pc = .write batch flush)
    (written : Nat) :
    Inv crc origin Base
      (State.stop { s with
        dir := s.dir.modify s.fileSeq fun f =>
          f.writeAll s.filePos ((encodeRecords crc (batchRecords batch)).take written) })
      (L.setActive
        (L.active.tear ((encodeRecords crc (batchRecords batch)).take written))) := by
  have hstray : L.stray = [] := by simpa [StrayOk, hpc] using h.disk.stray
  refine ⟨?_, h.index.congr (by rw [hpc]; rfl) rfl rfl (Layout.entries_setActive rfl),
    ⟨fun hp => absurd rfl hp, ?_⟩, { h.requests.stop with }, ?_⟩
  · refine { h.disk with
      files := ?_
      stray := .inl hstray
      tail := fun hp => absurd rfl hp
      grown := Layout.forall_setActive h.disk.grown (h.disk.grown L.active L.active_mem)
      kept := h.disk.kept
      base := Layout.forall_setActive h.disk.base (h.disk.base L.active L.active_mem) }
    show (s.dir.modify s.fileSeq fun f => f.writeAll s.filePos _).files = _
    rw [h.disk.filePos]
    exact h.disk.modify_files hstray (L.active.tear_file crc _)
  · have hrecords : ∀ data, (L.setActive (L.active.tear data)).records = L.records :=
      fun _ => Layout.records_setActive rfl
    refine ⟨batchRecords batch, written, ?_, ?_⟩
    · rw [hrecords, h.log_write hpc]
      exact List.prefix_refl _
    · show _ ++ L.active.tail.drop _ = _
      rw [h.disk.tail (by rw [hpc]; simp)]
      rfl
  · refine fun h₀ => ⟨(h.acks h₀).closed, False.elim, List.forall_mem_nil _, ?_, ?_⟩
    · exact fun q hq => ((h.acks h₀).answers q hq).setActive fun hd => hd.tear _
    · exact fun rs hrs r hr =>
        ((h.acks h₀).flushAnswers rs hrs r hr).setActive fun hd => hd.tear _

theorem Inv.appendBatch (h : Inv crc origin Base s L) (hpc : s.pc = .write batch flush) :
    Inv crc origin Base
      { s with
        dir := s.dir.modify s.fileSeq fun f =>
          f.writeAll s.filePos (encodeRecords crc (batchRecords batch))
        filePos := s.filePos + (encodeRecords crc (batchRecords batch)).length
        currentOffset := s.currentOffset + sizeAll (batchRecords batch)
        pc := .index batch
          (locationsFrom s.currentSegmentSeq s.currentOffset (batchRecords batch)) flush }
      (L.setActive (L.active.appendBatch (batchRecords batch))) := by
  have hrun : s.pc ≠ .stopped := by rw [hpc]; simp
  have hun : s.pc.unindexed = ([], []) := by rw [hpc]; rfl
  have hstray : L.stray = [] := by simpa [StrayOk, hpc] using h.disk.stray
  have hpend := fun h₀ => (h.acks h₀).pending_nil (by rw [hpc]; simp)
  have hgrown := (h.disk.grown L.active L.active_mem).trans
    (List.prefix_append _ (batchRecords batch))
  have htail : TailOk origin (L.active.appendBatch (batchRecords batch)) := by
    show L.active.tail.drop (sizeAll (batchRecords batch)) = _
    rw [h.disk.tail hrun, List.drop_drop, Seg.appendBatch_stop]
    rfl
  have hrecords : (L.setActive (L.active.appendBatch (batchRecords batch))).records =
      origin.records ++ s.received := by
    rw [← h.log_write hpc, Layout.records_eq, Layout.records_eq]
    simp [Layout.setActive, Seg.appendBatch]
  refine ⟨?_, ⟨?_, ?_, ?_⟩, ⟨fun _ => ?_, ?_⟩,
    h.requests.congr rfl rfl rfl rfl rfl rfl hrun, ?_⟩
  · refine ⟨?_, h.disk.fileSeq, h.disk.currentSeq, ?_, ?_, hstray, h.disk.tails, fun _ => htail,
      h.disk.fresh, Layout.forall_setActive h.disk.grown hgrown, h.disk.kept,
      Layout.forall_setActive h.disk.base (h.disk.base L.active L.active_mem)⟩
    · show (s.dir.modify s.fileSeq fun f => f.writeAll s.filePos _).files = _
      rw [h.disk.filePos]
      exact h.disk.modify_files hstray (L.active.appendBatch_file crc _)
    · show s.filePos + _ = (L.active.appendBatch _).stop
      rw [Seg.appendBatch_stop, h.disk.filePos, encodeRecords_length]
    · show s.currentOffset + _ = (L.active.appendBatch _).stop
      rw [Seg.appendBatch_stop, h.disk.currentOffset]
  · show insertAll s.index (locationsFrom s.currentSegmentSeq s.currentOffset _) = _
    rw [h.index.eq hun, h.disk.currentSeq, h.disk.currentOffset, ← insertAll_append,
      Layout.entries_eq, Layout.entries_eq]
    simp [Layout.setActive, Seg.appendBatch_entries]
  · intro e he
    replace he : e ∈ locationsFrom s.currentSegmentSeq s.currentOffset (batchRecords batch) := he
    obtain ⟨⟨r, o⟩, hr, rfl⟩ := List.mem_map.mp he
    obtain ⟨front, back, -, rfl⟩ := mem_located.mp hr
    refine ⟨h.disk.currentSeq, ?_⟩
    show min L.active.synced L.active.stop ≤ s.currentOffset + sizeAll front
    rw [h.disk.currentOffset]
    omega
  · intro q hq
    exact List.mem_append_right _ (List.mem_map_of_mem hq)
  · show _ ++ [] = origin.records ++ s.received
    rw [hrecords]
    exact List.append_nil _
  · exact htail.torn (hrecords ▸ List.prefix_refl _)
  · refine fun h₀ => ⟨(h.acks h₀).closed, False.elim, ?_, ?_, ?_⟩
    · show ∀ q ∈ s.pendingDurableAcks, _
      rw [hpend h₀]
      simp
    · exact fun q hq => ((h.acks h₀).answers q hq).setActive fun hd => hd.appendBatch _
    · exact fun rs hrs r hr =>
        ((h.acks h₀).flushAnswers rs hrs r hr).setActive fun hd => hd.appendBatch _

theorem Inv.writeBatch (h : Inv crc origin Base s L) {result : WriteResult}
    (hs : Stepped crc s (.writeBatch result) s') : ∃ L', Inv crc origin Base s' L' := by
  cases hs with
  | caller ha => cases ha
  | wrote hpc => exact ⟨_, h.appendBatch hpc⟩
  | torn hpc => exact ⟨_, h.tearBatch hpc _⟩

theorem Inv.indexBatch (h : Inv crc origin Base s L) {elapsed : Nat}
    (hs : Stepped crc s (.indexBatch elapsed) s') : Inv crc origin Base s' L := by
  cases hs with
  | caller ha => cases ha
  | @indexed batch offsets flush _ hpc =>
    have hrun : s.pc ≠ .stopped := by rw [hpc]; nofun
    have hstray : L.stray = [] := by simpa [StrayOk, hpc] using h.disk.stray
    have hpend := fun h₀ => (h.acks h₀).pending_nil (by rw [hpc]; nofun)
    generalize hp : (if !(s.pendingDurableAcks ++
        batch.filter WalWriteRequest.durableAck).isEmpty ||
        shouldSync s.config (s.unflushedRecords + offsets.length) elapsed
      then Pc.sync flush else afterBatch flush) = pc
    have hpc' : pc.batch = [] ∧ ¬ pc.Rolling ∧ pc.unindexed = ([], []) ∧
        StrayOk L.active.seq pc L.stray := by
      rw [← hp, hstray]
      split
      · exact ⟨rfl, nofun, rfl, rfl⟩
      · cases flush <;> exact ⟨rfl, nofun, rfl, rfl⟩
    obtain ⟨hbatch, hroll, hun, hstrayOk⟩ := hpc'
    refine ⟨{ h.disk with stray := hstrayOk, tail := fun _ => h.disk.tail hrun },
      ⟨?_, by rw [hun]; nofun, by rw [hun]; nofun⟩, ⟨fun _ => ?_, h.log.torn⟩,
      h.requests.congr rfl rfl rfl rfl rfl rfl hrun,
      fun h₀ => { h.acks h₀ with rolling := fun hr => absurd hr hroll, pending := ?_ }⟩
    · show insertAll (insertAll s.index offsets) pc.unindexed.2 = _
      have := h.index.index
      rw [hpc] at this
      rw [hun]
      exact this
    · show L.records ++ batchRecords pc.batch = origin.records ++ s.received
      have := h.log.running hrun
      rw [hpc] at this
      rw [hbatch]
      exact this
    · intro q hq
      replace hq : q ∈ s.pendingDurableAcks ++ batch.filter WalWriteRequest.durableAck := hq
      constructor
      · refine ⟨flush, ?_⟩
        rw [← hp, if_pos]
        have hne : (s.pendingDurableAcks ++
            batch.filter WalWriteRequest.durableAck).isEmpty = false := by
          rw [List.isEmpty_eq_false_iff]
          exact List.ne_nil_of_mem hq
        simp [hne]
      · rw [hpend h₀, List.nil_append] at hq
        have hwritten := h.index.written
        rw [hpc] at hwritten
        exact hwritten q (List.mem_of_mem_filter hq)

/-! ## Opening a log -/

theorem Opened.fileOf_of_mem {p : Nat × Bytes} (h : p ∈ o.dir.files) : o.fileOf p.1 = p.2 := by
  rw [Opened.fileOf, Dir.find?_eq_some.mpr h, Option.getD_some]

theorem Opened.fileOf_of_gt {front : List (Nat × Bytes)} {last seq : Nat} {bytes : Bytes}
    (hfiles : o.dir.files = front ++ [(last, bytes)]) (h : last < seq) : o.fileOf seq = [] := by
  have hnone : o.dir.find? seq = none := by
    by_contra hsome
    obtain ⟨file, hfile⟩ := Option.ne_none_iff_exists'.mp hsome
    exact Nat.not_le_of_lt h (Dir.le_last hfiles (Dir.find?_eq_some.mp hfile))
  rw [Opened.fileOf, hnone]
  rfl

/-- **Opening establishes the invariant**, whatever the files hold. -/
theorem Opened.start_inv {front : List (Nat × Bytes)} {bytes : Bytes}
    (hfiles : o.dir.files = front ++ [(o.currentSeq, bytes)])
    (hoff : o.currentOffset ≤ bytes.length) (hnext : o.nextId < 2 ^ 64)
    (hfront : ∀ p ∈ front, Base p.2) (hbase : Base (bytes.take o.currentOffset))
    (config : WalConfig) (synced : Nat → Nat) :
    Inv crc (o.origin (o.layout synced front bytes)) Base (o.start config synced)
      (o.layout synced front bytes) := by
  have hstop : (o.layout synced front bytes).active.stop = o.currentOffset := by
    simp [Opened.layout, Seg.stop, hoff]
  have hnil : ∀ seg ∈ (o.layout synced front bytes).segs, seg.records = [] := by
    intro seg hseg
    rcases Layout.mem_segs.mp hseg with hseg | rfl
    · obtain ⟨p, -, rfl⟩ := List.mem_map.mp hseg
      rfl
    · rfl
  have hrecords : (o.layout synced front bytes).records = [] :=
    List.flatMap_eq_nil_iff.mpr hnil
  have hentries : (o.layout synced front bytes).entries = [] :=
    List.flatMap_eq_nil_iff.mpr fun seg hseg => by
      simp [Seg.entries, locationsFrom, located, hnil seg hseg]
  have htail :
      TailOk (o.origin (o.layout synced front bytes)) (o.layout synced front bytes).active := by
    rw [TailOk, hstop]
    exact congrArg (List.drop _)
      (Opened.fileOf_of_mem (p := (o.currentSeq, bytes)) (by simp [hfiles])).symm
  refine ⟨⟨?_, rfl, rfl, hstop.symm, hstop.symm, rfl, ?_, fun _ => htail,
    ?_, fun _ _ => List.nil_prefix, .inl ⟨rfl, rfl⟩, ?_⟩,
    ⟨by rw [hentries]; rfl, List.forall_mem_nil _, List.forall_mem_nil _⟩,
    ⟨fun _ => by rw [hrecords]; rfl,
    htail.torn (by rw [hrecords]; exact List.nil_prefix)⟩,
    ⟨?_, List.forall_mem_nil _, fun _ => List.nodup_nil, List.forall_mem_nil _, fun _ => rfl⟩,
    fun _ => ⟨?_, False.elim, List.forall_mem_nil _, fun _ hq => absurd hq List.not_mem_nil,
      fun _ hq => absurd hq List.not_mem_nil⟩⟩
  · simp [Opened.start, Layout.files_eq, Opened.layout, hfiles, Seg.file, Seg.bytes,
      Function.comp_def]
  · intro seg hseg
    obtain ⟨p, hp, rfl⟩ := List.mem_map.mp hseg
    have hfile : o.fileOf p.1 = p.2 := Opened.fileOf_of_mem (by simp [hfiles, hp])
    simp [TailOk, Opened.origin, hfile, Seg.stop]
  · intro seq hseq
    exact ⟨Opened.fileOf_of_gt hfiles hseq, rfl⟩
  · intro seg hseg
    rcases Layout.mem_segs.mp hseg with hseg | rfl
    · obtain ⟨p, hp, rfl⟩ := List.mem_map.mp hseg
      exact hfront p hp
    · exact hbase
  · exact (Nat.mod_eq_of_lt hnext).symm
  · intro seg hseg hne
    exact absurd (hnil seg (Layout.mem_segs.mpr (.inl hseg))) hne

/-! ## Whole runs -/

/-- **Every step keeps the invariant**, whatever the outcome of its file operation. -/
theorem Inv.step (h : Inv crc origin Base s L) (hbase : Base segmentHeader) {a : Action}
    (hs : step crc s a = some s') : ∃ L', Inv crc origin Base s' L' := by
  have hst := stepped_of_step hs
  cases a with
  | buildRequest data durable => cases hs; exact ⟨L, h.build data durable⟩
  | sendRequest i => exact ⟨L, h.send hs⟩
  | sendFlush => exact ⟨L, h.sendFlush hs⟩
  | recv more => exact ⟨L, h.recv hst⟩
  | flushFile result => exact h.flushFile hst
  | createSegment result => exact h.create hst
  | writeHeader result => exact h.writeHeader hst
  | syncHeader result => exact h.syncHeader hbase hst
  | writeBatch result => exact h.writeBatch hst
  | indexBatch elapsed => exact ⟨L, h.indexBatch hst⟩

theorem run_inv (h : Inv crc origin Base s L) (hbase : Base segmentHeader) {as : List Action}
    (hrun : run (step crc) s as = some s') : ∃ L', Inv crc origin Base s' L' :=
  run_invariant (P := fun s => ∃ L, Inv crc origin Base s L)
    (fun _ _ _ ⟨_, hi⟩ hs => hi.step hbase hs) ⟨L, h⟩ hrun

end Invariant

end BlipMQ.Wal
