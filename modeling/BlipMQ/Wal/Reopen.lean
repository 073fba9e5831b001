import Mathlib.Data.List.Flatten
import BlipMQ.Wal.Compaction

/-!
# WAL — reopening what a running log has written

The index in memory grows with every batch and loses the entries of the
segments that compaction removes; `open_with_config` builds its index from
the files that are left. Here rolls and calls of `compact_below` are steps
of their own: no call falls between the file a roll makes and the number it
stores, and nothing falls into a call. Then both ways lead to the same
index, segment and offset.
-/

namespace BlipMQ.Wal

/-! ## Calls of `compact_below` as single steps -/

inductive WholeAction where
  /-- A step of the appenders or the writer task. -/
  | log (a : Action)
  /-- A call of `compact_below` without an error, from its start to its end. -/
  | compactBelow (safeThreshold : Nat)
  deriving DecidableEq, Repr

namespace Compacting

/-- No roll is under way that has made its file: nothing is listed behind the
active segment. -/
def Rolled (c : Compacting) : Prop := ∀ seq ∈ c.listSegmentSeqs, seq ≤ c.log.currentSegmentSeq

instance Rolled.decidable (c : Compacting) : Decidable c.Rolled :=
  inferInstanceAs (Decidable (∀ seq ∈ c.listSegmentSeqs, seq ≤ c.log.currentSegmentSeq))

/-- What a call chooses that sees one state of the log. -/
def toDelete (c : Compacting) (safeThreshold : Nat) : List Nat :=
  segmentsToDelete safeThreshold c.log.currentSegmentSeq (maxIdPerSegment c.log.index)
    c.listSegmentSeqs

def wholeStep (crc : Bytes → UInt32) (c : Compacting) : WholeAction → Option Compacting
  | .log a => c.step crc (.log a)
  | .compactBelow safeThreshold =>
    if c.Rolled then
      run (Compacting.step crc) c
        (compactRun c.compactors.length (c.toDelete safeThreshold).length safeThreshold)
    else none

/-- What a call chooses and finds. -/
def chosenFiles (c : Compacting) (t : Nat) : List Nat :=
  (c.toDelete t).filter (· ∈ c.listSegmentSeqs)

/-- The log after a call that nothing interrupts. -/
def afterCall (c : Compacting) (t : Nat) : Compacting where
  log := { c.log with
    index := if 0 < (c.chosenFiles t).length then pruneIndex c.log.index (c.toDelete t)
      else c.log.index }
  removed := c.removed ++ (c.chosenFiles t).map fun q => (q, t)
  compactors := c.compactors ++ [.done (.ok (c.chosenFiles t).length)]

theorem run_afterCall (crc : Bytes → UInt32) (c : Compacting) (t : Nat) :
    run (Compacting.step crc) c (compactRun c.compactors.length (c.toDelete t).length t) =
      some (c.afterCall t) :=
  run_call crc rfl

theorem removedSeqs_afterCall (c : Compacting) (t : Nat) :
    (c.afterCall t).removedSeqs = c.removedSeqs ++ c.chosenFiles t := by
  show (c.removed ++ (c.chosenFiles t).map fun q => (q, t)).map Prod.fst = _
  rw [List.map_append, List.map_map, show Prod.fst ∘ (fun q => (q, t)) = id from rfl,
    List.map_id]
  rfl

end Compacting

/-! ## The invariant between calls -/

/-- Between calls the index is the one the writer has filled, without the
entries of the removed segments. -/
structure PrunedInv (crc : Bytes → UInt32) (origin : Origin) (c : Compacting) (full : Index)
    (L : Layout) : Prop extends CompactInv crc origin c full L where
  index : c.log.index = pruneIndex full c.removedSeqs

section Pruned

variable {crc : Bytes → UInt32} {origin : Origin} {c c' : Compacting} {full : Index} {L : Layout}

theorem PrunedInv.notMem_removed (h : PrunedInv crc origin c full L) {id : Nat}
    {loc : RecordLocation} (hlook : c.log.index.lookup id = some loc) :
    loc.segmentSeq ∉ c.removedSeqs := by
  rw [h.index] at hlook
  exact (lookup_pruneIndex.mp hlook).2

theorem PrunedInv.active_notMem (h : PrunedInv crc origin c full L) :
    L.active.seq ∉ c.removedSeqs := by
  intro hmem
  obtain ⟨p, hp, heq⟩ := List.mem_map.mp hmem
  exact absurd heq (Nat.ne_of_lt (h.removed p hp).closed)

/-- Steps of the log: what they enter lies in the active segment. -/
theorem PrunedInv.log (h : PrunedInv crc origin c full L) {a : Action} {log' : State}
    (hs : step crc c.log a = some log') :
    ∃ full' L', PrunedInv crc origin { c with log := log' } full' L' := by
  obtain ⟨L', h'⟩ := h.toCompactInv.log hs
  refine ⟨_, L', h', ?_⟩
  have hindex := step_index hs
  show log'.index = pruneIndex _ c.removedSeqs
  rw [hindex, h.index]
  refine insertAll_pruneIndex fun e he => ?_
  rw [(h.inv.index.offsets e (Action.mem_indexed he)).1]
  exact h.active_notMem

/-- What a call chooses is closed and has not been removed. -/
theorem PrunedInv.toDelete (h : PrunedInv crc origin c full L)
    (hnd : (L.records.map WalRecord.id).Nodup) (hrolled : c.Rolled) {t q : Nat}
    (hq : q ∈ c.toDelete t) : L.Safe q t ∧ q ∈ c.listSegmentSeqs := by
  have hactive : c.log.currentSegmentSeq = L.active.seq := h.inv.disk.currentSeq
  have hnot : q ∉ c.removedSeqs := by
    obtain ⟨-, ⟨m, hm, -⟩ | ⟨hlisted, -⟩⟩ := mem_segmentsToDelete.mp hq
    · obtain ⟨loc, hlook, rfl⟩ := lookup_of_maxIdPerSegment hm
      exact h.notMem_removed hlook
    · exact of_decide_eq_true (List.mem_filter.mp hlisted).2
  -- nothing is listed behind the active segment, so no listing is unsettled
  have hsettled : ∀ seq ∈ c.listSegmentSeqs, c.log.currentSegmentSeq < seq →
      seq < c.log.currentSegmentSeq ∨
        ∃ m, (maxIdPerSegment c.log.index).lookup seq = some m ∧ t < m := by
    intro seq hseq hlt
    exact absurd (hrolled seq hseq) (Nat.not_le_of_lt hlt)
  have hfiles (q m : Nat) (hm : (maxIdPerSegment c.log.index).lookup q = some m) :
      q ∈ c.log.dir.seqs := by
    obtain ⟨loc, hlook, rfl⟩ := lookup_of_maxIdPerSegment hm
    exact h.files m loc hlook
  refine ⟨((h.scanned hnd t (Nat.le_of_eq hactive)).chosen hfiles hsettled hq).resolve_left hnot,
    Compacting.mem_listSegmentSeqs.mpr ⟨c.mem_files_of_chosen hfiles q hq, hnot⟩⟩

/-- Between calls, a call finds all it chooses, removes it and prunes the index by the
same. -/
theorem PrunedInv.afterCall (h : PrunedInv crc origin c full L)
    (hnd : (L.records.map WalRecord.id).Nodup) (hrolled : c.Rolled) (t : Nat) :
    PrunedInv crc origin (c.afterCall t) full L := by
  have hall : c.chosenFiles t = c.toDelete t :=
    List.filter_eq_self.mpr fun q hq => decide_eq_true (h.toDelete hnd hrolled hq).2
  have hindex : (c.afterCall t).log.index = pruneIndex full (c.afterCall t).removedSeqs := by
    show (if 0 < (c.chosenFiles t).length then pruneIndex c.log.index (c.toDelete t)
      else c.log.index) = _
    rw [c.removedSeqs_afterCall, hall, pruned_length, h.index, pruneIndex_pruneIndex]
  have hsub : ∀ q ∈ c.removedSeqs, q ∈ (c.afterCall t).removedSeqs := by
    rw [c.removedSeqs_afterCall]
    exact fun q hq => List.mem_append_left _ hq
  refine ⟨⟨⟨h.inv, ?_, ?_, ?_, ?_⟩, ?_, ?_⟩, hindex⟩
  · intro id loc hlook hnot
    rw [hindex]
    exact lookup_pruneIndex.mpr ⟨hlook, hnot⟩
  · exact fun id loc hlook => h.entered id loc (lookup_pruned.mp hlook).1
  · exact fun id loc hlook => h.files id loc (lookup_pruned.mp hlook).1
  · exact forall_mem_concat (fun k hk => (h.compactors k hk).mono (fun _ hq => hq) hsub) trivial
  · intro p hp
    rcases List.mem_append.mp hp with hp | hp
    · exact h.removed p hp
    · obtain ⟨q, hq, rfl⟩ := List.mem_map.mp hp
      exact (h.toDelete hnd hrolled (List.mem_of_mem_filter hq)).1
  · exact forall_mem_concat (fun k hk => (h.calls k hk).mono (.refl L) hsub) trivial

theorem PrunedInv.wholeStep (h : PrunedInv crc origin c full L)
    (hnd : (L.records.map WalRecord.id).Nodup) {a : WholeAction}
    (hs : c.wholeStep crc a = some c') : ∃ full' L', PrunedInv crc origin c' full' L' := by
  cases a with
  | log a =>
    obtain ⟨log', hlog, rfl⟩ := Option.map_eq_some_iff.mp hs
    exact h.log hlog
  | compactBelow t =>
    simp only [Compacting.wholeStep] at hs
    by_cases hrolled : c.Rolled
    · rw [if_pos hrolled, c.run_afterCall crc t] at hs
      cases hs
      exact ⟨full, L, h.afterCall hnd hrolled t⟩
    · rw [if_neg hrolled] at hs
      cases hs

theorem Compacting.wholeStep_taken_le {a : WholeAction} (hs : c.wholeStep crc a = some c') :
    c.log.taken ≤ c'.log.taken := by
  cases a with
  | log a =>
    have hlog : c.step crc (.log a) = some c' := hs
    exact Compacting.step_taken_le hlog
  | compactBelow t =>
    simp only [Compacting.wholeStep] at hs
    by_cases hrolled : c.Rolled
    · rw [if_pos hrolled] at hs
      exact run_invariant (P := fun x => c.log.taken ≤ x.log.taken)
        (fun x a x' hle hx => Nat.le_trans hle (Compacting.step_taken_le hx)) (Nat.le_refl _) hs
    · rw [if_neg hrolled] at hs
      cases hs

/-- The invariant after any run on a clean log. -/
theorem CleanLog.run_prunedInv {config : WalConfig} {dir : Dir Bytes} {segs : List StoredSegment}
    {o : Opened} (hclean : CleanLog crc dir segs)
    (hopen : openWithConfig crc config (.directory dir) = .ok o) {synced : Nat → Nat}
    {as : List WholeAction}
    (hrun : run (Compacting.wholeStep crc) (Compacting.start o config synced) as = some c)
    (hids : o.nextId + c.log.taken ≤ 2 ^ 64) :
    ∃ origin full L, PrunedInv crc origin c full L ∧ origin.index = ∅ ∧
      origin.records = allRecords segs ∧ origin.nextId = o.nextId ∧
      ∀ seg ∈ L.segs, (origin.fileOf seg.seq).drop seg.stop = [] := by
  obtain ⟨front, last, hlog, hwhole, hrecords⟩ := hclean.opened hopen
  have hstart := hlog.start_compactInv (openWithConfig_nextId_lt hopen) config synced
  have hinv := run_invariant
    (P := fun c => o.nextId + c.log.taken ≤ 2 ^ 64 →
      ∃ full L, PrunedInv crc (hlog.origin synced) c full L)
    (fun c a c' hP hs hle => by
      have htaken := Compacting.wholeStep_taken_le hs
      obtain ⟨full, L, h⟩ := hP (by omega)
      exact h.wholeStep (hclean.nodup_layout hopen hrecords h.inv
        (Nat.le_trans (Nat.add_le_add_left htaken _) hle)) hs)
    (fun _ => ⟨_, _, hstart, (pruneIndex_nil _).symm⟩) hrun
  obtain ⟨full, L, h⟩ := hinv hids
  exact ⟨hlog.origin synced, full, L, h, rfl, hrecords, rfl,
    fun seg hseg => hlog.tail_nil hwhole h.inv hseg⟩

end Pruned

/-! ## At rest -/

section Rest

variable {crc : Bytes → UInt32} {config : WalConfig} {dir : Dir Bytes}
  {segs : List StoredSegment} {o : Opened} {synced : Nat → Nat} {c : Compacting}

/-- The segments of the layout that still have a name. -/
def Layout.named (L : Layout) (removed : List Nat) : List StoredSegment :=
  L.stored.filter fun seg => seg.seq ∉ removed

theorem PrunedInv.named_eq {origin : Origin} {full : Index} {L : Layout}
    (h : PrunedInv crc origin c full L) : L.named c.removedSeqs =
      (L.closed.map Seg.toStored).filter (fun seg => seg.seq ∉ c.removedSeqs) ++
        [L.active.toStored] := by
  have hactive : L.active.toStored.seq ∉ c.removedSeqs := h.active_notMem
  rw [Layout.named, Layout.stored, Layout.segs, List.map_append, List.filter_append,
    List.map_singleton, List.filter_cons_of_pos (by exact decide_eq_true hactive), List.filter_nil]

theorem Layout.allRecords_named (L : Layout) (removed : List Nat) :
    (allRecords (L.named removed)).Sublist (allRecords L.stored) :=
  List.filter_sublist.flatMap StoredSegment.records

/-- With an idle writer the files that have a name are those of a clean log. -/
theorem Inv.clean_named {origin : Origin} {full : Index} {L : Layout}
    (h : Inv crc origin (· = segmentHeader) (c.log.withIndex full) L)
    (htails : ∀ seg ∈ L.segs, (origin.fileOf seg.seq).drop seg.stop = [])
    (hidle : c.log.pc = .idle) (hfits : ∀ r ∈ allRecords L.stored, r.Fits ∧ r.id + 1 < 2 ^ 64)
    (hnd : ((allRecords L.stored).map WalRecord.id).Nodup) :
    CleanLog crc c.contents (L.named c.removedSeqs) := by
  obtain ⟨hfiles, -, -, -⟩ := h.stored_of_idle htails hidle
  have hsub := L.allRecords_named c.removedSeqs
  refine ⟨?_, ?_, fun r hr => hfits r (hsub.subset hr), hnd.sublist (hsub.map _)⟩
  · have hcontents : c.log.contents.files = L.stored.map (StoredSegment.file crc) := hfiles
    show (c.log.contents.files.filter fun p => p.1 ∉ c.removedSeqs) = _
    rw [hcontents, List.filter_map]
    rfl
  · intro st hst
    obtain ⟨seg, hseg, rfl⟩ := List.mem_map.mp (List.mem_of_mem_filter hst)
    exact h.tail_nil htails (by rw [State.withIndex_pc, hidle]; simp) seg hseg

theorem Layout.allEntries_named (L : Layout) (removed : List Nat) :
    allEntries (L.named removed) =
      (allEntries L.stored).filter fun e => e.2.segmentSeq ∉ removed :=
  (allEntries_filter L.stored fun seq => seq ∉ removed).symm

/-- **A log that comes to rest is clean again, and its index is that of its
files**, with the writer behind the last record of the last file. -/
theorem CleanLog.of_pruned (hclean : CleanLog crc dir segs)
    (hopen : openWithConfig crc config (.directory dir) = .ok o) {as : List WholeAction}
    (hrun : run (Compacting.wholeStep crc) (Compacting.start o config synced) as = some c)
    (hids : o.nextId + c.log.taken < 2 ^ 64) (hidle : c.log.pc = .idle) :
    ∃ front last, CleanLog crc c.contents (front ++ [last]) ∧
      c.log.index = insertAll ∅ (allEntries (front ++ [last])) ∧
      last.seq = c.log.currentSegmentSeq ∧ last.stop = c.log.currentOffset := by
  obtain ⟨origin, full, L, h, hempty, hrecords, hnext, htails⟩ :=
    hclean.run_prunedInv hopen hrun (Nat.le_of_lt hids)
  obtain ⟨-, -, hall, hfull⟩ := h.inv.stored_of_idle htails hidle
  obtain ⟨hfits, hnd⟩ := hclean.received hopen h.inv hrecords hnext hids
  rw [hrecords] at hall
  rw [← hall] at hfits hnd
  have hrest := h.inv.clean_named htails hidle hfits hnd
  have hrebuilt : c.log.index = insertAll ∅ (allEntries (L.named c.removedSeqs)) := by
    have hfilled : full = insertAll ∅ (allEntries L.stored) := hempty ▸ hfull
    rw [h.index, hfilled, pruneIndex_insertAll (by rwa [allEntries_ids]), L.allEntries_named]
  have hstop : L.active.toStored.stop = c.log.currentOffset := by
    have hoffset : c.log.currentOffset = L.active.stop := h.inv.disk.currentOffset
    rw [hoffset, Seg.stop, h.inv.disk.base _ L.active_mem, segmentHeader_length]
    rfl
  rw [h.named_eq] at hrest hrebuilt
  exact ⟨_, _, hrest, hrebuilt, h.inv.disk.currentSeq.symm, hstop⟩

/-- **Reopening a log at rest gives back what the running log has in memory**:
the same index, and the same segment and offset to go on from; new ids
start above all indexed ones. -/
theorem reopened_as_running (hclean : CleanLog crc dir segs)
    (hopen : openWithConfig crc config (.directory dir) = .ok o) {as : List WholeAction}
    (hrun : run (Compacting.wholeStep crc) (Compacting.start o config synced) as = some c)
    (hids : o.nextId + c.log.taken < 2 ^ 64) (hidle : c.log.pc = .idle)
    {config' : WalConfig} (hconfig : config'.Valid) :
    ∃ o', openWithConfig crc config' (.directory c.contents) = .ok o' ∧
      o'.index = c.log.index ∧ o'.currentSeq = c.log.currentSegmentSeq ∧
      o'.currentOffset = c.log.currentOffset ∧ ∀ id ∈ o'.index, id < o'.nextId := by
  obtain ⟨front, last, hrest, hindex, hseq, hstop⟩ :=
    hclean.of_pruned hopen hrun hids hidle
  have hreopen := openWithConfig_stored hconfig hrest.files hrest.wellFormed
  refine ⟨_, hreopen, hindex.symm, hseq, hstop, ?_⟩
  intro id hid
  obtain ⟨loc, hloc⟩ := Option.isSome_iff_exists.mp (AList.lookup_isSome.mpr hid)
  have hmem := mem_of_lookup_insertAll_empty hloc
  have hrecord : id ∈ (allRecords (front ++ [last])).map WalRecord.id := by
    rw [← allEntries_ids]
    exact List.mem_map_of_mem hmem
  obtain ⟨r, hr, rfl⟩ := List.mem_map.mp hrecord
  exact hrest.id_lt_nextId hreopen r hr

/-- Two callers, of which the second is faster, each in a segment of its own;
then the first segment is compacted away. -/
def fasterCallerRun : List WholeAction :=
  [.log (.buildRequest [7] true), .log (.buildRequest [9, 9, 9, 9, 9, 9, 9, 9] true),
    .log (.sendRequest 1), .log (.recv 0), .log (.writeBatch .ok), .log (.indexBatch 0),
    .log (.flushFile .ok), .log (.sendRequest 0), .log (.recv 0), .log (.flushFile .ok),
    .log (.createSegment .ok), .log (.writeHeader .ok), .log (.syncHeader .ok),
    .log (.writeBatch .ok), .compactBelow 2, .log (.indexBatch 0), .log (.flushFile .ok)]

theorem reopened_as_running_faster_caller :
    ∃ c, run (Compacting.wholeStep Crc32.crc32)
        (Compacting.start freshLog tinyConfig fun _ => headerLen) fasterCallerRun = some c ∧
      c.removed = [(1, 2)] ∧ c.log.index.lookup 1 = some ⟨2, headerLen⟩ ∧
      ∃ o, openWithConfig Crc32.crc32 tinyConfig (.directory c.contents) = .ok o ∧
        o.index = c.log.index ∧ o.currentSeq = c.log.currentSegmentSeq ∧
        o.currentOffset = c.log.currentOffset ∧ ∀ id ∈ o.index, id < o.nextId := by
  obtain ⟨c, hc, hremoved, hlookup, hids, hidle⟩ : ∃ c, run (Compacting.wholeStep Crc32.crc32)
      (Compacting.start freshLog tinyConfig fun _ => headerLen) fasterCallerRun = some c ∧
        c.removed = [(1, 2)] ∧ c.log.index.lookup 1 = some ⟨2, headerLen⟩ ∧
        freshLog.nextId + c.log.taken < 2 ^ 64 ∧ c.log.pc = .idle := by decide +kernel
  exact ⟨c, hc, hremoved, hlookup, reopened_as_running (cleanLog_empty _) open_empty hc hids hidle
    ⟨by decide, by decide⟩⟩

end Rest

end BlipMQ.Wal
