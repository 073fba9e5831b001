import BlipMQ.Wal.Durability
import BlipMQ.Wal.Recovered

/-!
# WAL — iterating while callers append

`iterate_from` starts at the place of the smallest qualifying id and walks
on to the end of the log. It sees what stands behind that place in file
order. File order is the order in which requests were sent on the channel;
id order is the order in which they were built.
-/

namespace BlipMQ.Wal

/-! ## The starting point -/

variable {index : Index} {fromId : Nat}

theorem firstFrom_some {minId : Nat} {loc : RecordLocation}
    (h : firstFrom index fromId = some (minId, loc)) :
    index.lookup minId = some loc ∧ fromId ≤ minId ∧
      ∀ id loc', index.lookup id = some loc' → fromId ≤ id → minId ≤ id := by
  obtain ⟨e, he, heq⟩ := Option.map_eq_some_iff.mp h
  cases heq
  have hmem := List.mem_filter.mp (List.argmin_mem he)
  refine ⟨AList.mem_lookup_iff.mpr hmem.1, by simpa using hmem.2, ?_⟩
  intro id loc' hlook hle
  have hother : (⟨id, loc'⟩ : Sigma fun _ : Nat => RecordLocation) ∈
      index.entries.filter fun e => fromId ≤ e.1 :=
    List.mem_filter.mpr ⟨AList.mem_lookup_iff.mp hlook, by simpa using hle⟩
  exact List.le_of_mem_argmin hother he

/-- **`iterate_from` returns nothing below the id it is asked for.** -/
theorem le_id_of_iterateFrom {crc : Bytes → UInt32} {dir : Dir Bytes} {rs : List WalRecord}
    (h : iterateFrom crc index dir fromId = .ok rs) {r : WalRecord} (hr : r ∈ rs) :
    fromId ≤ r.id := by
  unfold iterateFrom at h
  cases hfirst : firstFrom index fromId with
  | none =>
    rw [hfirst] at h
    cases h
    exact absurd hr List.not_mem_nil
  | some first =>
    rw [hfirst] at h
    exact (firstFrom_some hfirst).2.1.trans (le_id_of_walkSegments h hr)

theorem firstFrom_none (h : firstFrom index fromId = none) {id : Nat} {loc : RecordLocation}
    (hlook : index.lookup id = some loc) : id < fromId := by
  rw [firstFrom, Option.map_eq_none_iff, List.argmin_eq_none, List.filter_eq_nil_iff] at h
  have := h _ (AList.mem_lookup_iff.mp hlook)
  simpa using this

/-- The start depends only on what is indexed from `fromId` on. -/
theorem firstFrom_congr {index' : Index}
    (h : ∀ id, fromId ≤ id → index.lookup id = index'.lookup id) :
    firstFrom index fromId = firstFrom index' fromId := by
  cases hfirst : firstFrom index fromId with
  | none =>
    cases hfirst' : firstFrom index' fromId with
    | none => rfl
    | some first =>
      obtain ⟨hlook, hle, -⟩ := firstFrom_some hfirst'
      rw [← h _ hle] at hlook
      exact absurd hle (Nat.not_le_of_lt (firstFrom_none hfirst hlook))
  | some first =>
    obtain ⟨minId, loc⟩ := first
    obtain ⟨hlook, hle, hleast⟩ := firstFrom_some hfirst
    cases hfirst' : firstFrom index' fromId with
    | none =>
      rw [h _ hle] at hlook
      exact absurd hle (Nat.not_le_of_lt (firstFrom_none hfirst' hlook))
    | some first' =>
      obtain ⟨minId', loc'⟩ := first'
      obtain ⟨hlook', hle', hleast'⟩ := firstFrom_some hfirst'
      -- each is the least of what both have
      obtain rfl : minId = minId' :=
        Nat.le_antisymm (hleast _ _ ((h _ hle').trans hlook') hle')
          (hleast' _ _ ((h _ hle).symm.trans hlook) hle)
      rw [h _ hle, hlook'] at hlook
      rw [Option.some.inj hlook]

section Iterate

variable {crc : Bytes → UInt32} {dir : Dir Bytes} {segs : List StoredSegment}

/-! ## The walk -/

variable {seg : StoredSegment}

/-- A segment is read from between two of its records on. -/
theorem StoredSegment.WellFormed.scan_from (h : seg.WellFormed crc) {front back : List WalRecord}
    (hrec : seg.records = front ++ back) :
    scanRecords crc ((seg.file crc).2.drop (headerLen + sizeAll front))
        (headerLen + sizeAll front) =
      .ok (located (headerLen + sizeAll front) back,
        headerLen + sizeAll front + sizeAll back) := by
  have hdrop : (seg.file crc).2.drop (headerLen + sizeAll front) =
      encodeRecords crc back ++ seg.rest := by
    have hlen : (segmentHeader ++ encodeRecords crc front).length = headerLen + sizeAll front := by
      simp
    rw [StoredSegment.file, hrec, encodeRecords_append, List.append_assoc, ← List.append_assoc,
      ← hlen, List.drop_left]
  rw [hdrop]
  exact scanRecords_encodeRecords
    (fun x hx => h.fits x (by rw [hrec]; exact List.mem_append_right _ hx)) (h.ends _)

/-- Segments behind the first one are read from their header on. -/
theorem walkSegments_stored {startSeq startOffset minId : Nat}
    (hwf : ∀ seg ∈ segs, seg.WellFormed crc) (hseq : ∀ seg ∈ segs, seg.seq ≠ startSeq) :
    walkSegments crc startSeq startOffset minId (segs.map (StoredSegment.file crc)) =
      .ok ((allRecords segs).filter fun r => minId ≤ r.id) := by
  induction segs with
  | nil => rfl
  | cons seg segs ih =>
    have hscan := (hwf seg (by simp)).scan_from (List.nil_append seg.records).symm
    rw [sizeAll_nil, Nat.add_zero] at hscan
    rw [List.map_cons, show seg.file crc = (seg.seq, (seg.file crc).2) from rfl, walkSegments,
      if_neg (hseq seg (by simp)), hscan, ih (fun x hx => hwf x (by simp [hx]))
        (fun x hx => hseq x (by simp [hx]))]
    simp [Except.map, allRecords]

/-- The segment the walk starts in is read from the starting record on. -/
theorem walkSegments_start {front back : List WalRecord} {r : WalRecord}
    (hrec : seg.records = front ++ r :: back) (hwf : seg.WellFormed crc)
    (hwfs : ∀ x ∈ segs, x.WellFormed crc) (hseq : ∀ x ∈ segs, x.seq ≠ seg.seq) (minId : Nat) :
    walkSegments crc seg.seq (headerLen + sizeAll front) minId
        ((seg :: segs).map (StoredSegment.file crc)) =
      .ok ((r :: back ++ allRecords segs).filter fun x => minId ≤ x.id) := by
  rw [List.map_cons, show seg.file crc = (seg.seq, (seg.file crc).2) from rfl, walkSegments,
    if_pos rfl, hwf.scan_from hrec, walkSegments_stored hwfs hseq]
  simp only [Except.map, located_map_fst, ← List.filter_append]

/-- The segments from number `seg.seq` on. -/
theorem filter_from {as bs : List StoredSegment}
    (hsorted : (as ++ seg :: bs).Pairwise fun a b => a.seq < b.seq) :
    (as ++ seg :: bs).filter (fun x => seg.seq ≤ x.seq) = seg :: bs := by
  obtain ⟨-, hcons, hcross⟩ := List.pairwise_append.mp hsorted
  have hlow : as.filter (fun x => seg.seq ≤ x.seq) = [] := by
    refine List.filter_eq_nil_iff.mpr fun x hx => ?_
    rw [decide_eq_true_eq]
    exact Nat.not_le.mpr (hcross x hx seg List.mem_cons_self)
  have hhigh : (seg :: bs).filter (fun x => seg.seq ≤ x.seq) = seg :: bs := by
    refine List.filter_eq_self.mpr fun x hx => ?_
    rw [decide_eq_true_eq]
    rcases List.mem_cons.mp hx with rfl | hx
    · exact Nat.le_refl _
    · exact Nat.le_of_lt ((List.pairwise_cons.mp hcons).1 x hx)
  rw [List.filter_append, hlow, hhigh, List.nil_append]

/-- The files listed from number `seg.seq` on. -/
theorem filter_stored {as bs : List StoredSegment}
    (hsorted : (as ++ seg :: bs).Pairwise fun a b => a.seq < b.seq) :
    ((as ++ seg :: bs).map (StoredSegment.file crc)).filter (fun p => seg.seq ≤ p.1) =
      (seg :: bs).map (StoredSegment.file crc) := by
  rw [List.filter_map]
  exact congrArg _ (filter_from hsorted)

theorem allRecords_append (as bs : List StoredSegment) :
    allRecords (as ++ bs) = allRecords as ++ allRecords bs := by
  simp [allRecords]

/-- **What `iterate_from` returns on stored records**: nothing if no id
qualifies, and otherwise the records behind the smallest qualifying id in
file order, of those the ones with an id at least as large. -/
theorem iterateFrom_stored (hdir : dir.files = segs.map (StoredSegment.file crc))
    (hwf : ∀ seg ∈ segs, seg.WellFormed crc) (fromId : Nat) :
    (iterateFrom crc (insertAll ∅ (allEntries segs)) dir fromId = .ok [] ∧
        ∀ r ∈ allRecords segs, r.id < fromId) ∨
      ∃ before r after, allRecords segs = before ++ r :: after ∧
        Indexed crc (insertAll ∅ (allEntries segs)) dir r ∧ fromId ≤ r.id ∧
        (∀ x ∈ allRecords segs, fromId ≤ x.id → r.id ≤ x.id) ∧
        iterateFrom crc (insertAll ∅ (allEntries segs)) dir fromId =
          .ok ((r :: after).filter fun x => r.id ≤ x.id) := by
  cases hfirst : firstFrom (insertAll ∅ (allEntries segs)) fromId with
  | none =>
    refine .inl ⟨by rw [iterateFrom, hfirst], fun r hr => ?_⟩
    obtain ⟨loc, -, hloc⟩ := exists_lookup_allEntries hr
    exact firstFrom_none hfirst hloc
  | some first =>
    obtain ⟨minId, loc⟩ := first
    obtain ⟨hlook, hle, hmin⟩ := firstFrom_some hfirst
    have hmem := mem_of_lookup_insertAll_empty hlook
    obtain ⟨seg, hseg, r, rfl, hseq, hr⟩ := mem_allEntries.mp hmem
    obtain ⟨front, back, hrec, hoff⟩ := mem_located.mp hr
    obtain ⟨as, bs, rfl⟩ := List.append_of_mem hseg
    have hsorted := dir.sorted
    rw [hdir, List.pairwise_map] at hsorted
    have hafter := (List.pairwise_cons.mp (List.pairwise_append.mp hsorted).2.1).1
    refine .inr ⟨allRecords as ++ front, r, back ++ allRecords bs, ?_, ?_, hle, ?_, ?_⟩
    · rw [allRecords_append]
      simp [allRecords, hrec]
    · refine ⟨loc, hlook, ?_⟩
      have hfile : seg.file crc ∈ dir.files := by
        rw [hdir]
        exact List.mem_map_of_mem hseg
      have hheld := StoredSegment.heldAt hfile hr
      rwa [← hseq] at hheld
    · intro x hx hxle
      obtain ⟨loc', -, hloc'⟩ := exists_lookup_allEntries hx
      exact hmin x.id loc' hloc' hxle
    · rw [iterateFrom, hfirst]
      dsimp only
      rw [hdir, hseq, filter_stored hsorted, hoff, walkSegments_start hrec (hwf seg hseg)
        (fun x hx => hwf x (by simp [hx])) (fun x hx => Nat.ne_of_gt (hafter x hx))]
      rfl

/-- A walk that starts at the id of an indexed record returns the record. -/
theorem mem_iterateFrom_of_indexed (hdir : dir.files = segs.map (StoredSegment.file crc))
    (hwf : ∀ seg ∈ segs, seg.WellFormed crc) {x : WalRecord} (hx : x ∈ allRecords segs)
    (hidx : Indexed crc (insertAll ∅ (allEntries segs)) dir x) :
    ∃ out, iterateFrom crc (insertAll ∅ (allEntries segs)) dir x.id = .ok out ∧ x ∈ out := by
  rcases iterateFrom_stored hdir hwf x.id with
    ⟨-, hnone⟩ | ⟨before, r, after, hsplit, hr, hle, hmin, hit⟩
  · exact absurd (hnone x hx) (Nat.lt_irrefl _)
  · -- the smallest id from `x.id` on is `x.id`, and the index leads to one record for it
    have hid : r.id = x.id := Nat.le_antisymm (hmin x hx (Nat.le_refl _)) hle
    have hmem : r ∈ allRecords segs := by rw [hsplit]; simp
    have hlast := (indexed_iff_lastWithId hdir hwf hx).mp hidx
    rw [← hid, (indexed_iff_lastWithId hdir hwf hmem).mp hr, Option.some.injEq] at hlast
    subst hlast
    exact ⟨_, hit, by simp⟩

/-! ## Completeness -/

theorem pairwise_of_split {α : Type*} {R : α → α → Prop} {l : List α}
    (h : ∀ before a after, l = before ++ a :: after → ∀ x ∈ before, R x a) : l.Pairwise R := by
  induction l using List.reverseRecOn with
  | nil => exact .nil
  | append_singleton l a ih =>
    refine List.pairwise_append.mpr ⟨ih ?_, List.pairwise_singleton _ _, ?_⟩
    · rintro before b after rfl x hx
      exact h before b (after ++ [a]) (by simp) x hx
    · intro x hx b hb
      rw [List.mem_singleton.mp hb]
      exact h l a [] rfl x hx

/-- With ids that ascend in file order the walk misses nothing. -/
theorem iterateFrom_stored_ascending (hdir : dir.files = segs.map (StoredSegment.file crc))
    (hwf : ∀ seg ∈ segs, seg.WellFormed crc)
    (hsorted : ((allRecords segs).map WalRecord.id).Pairwise (· < ·)) (fromId : Nat) :
    iterateFrom crc (insertAll ∅ (allEntries segs)) dir fromId =
      .ok ((allRecords segs).filter fun r => fromId ≤ r.id) := by
  rcases iterateFrom_stored hdir hwf fromId with
    ⟨hit, hnone⟩ | ⟨bf, r, af, hsplit, -, hle, hmin, hit⟩
  · rw [hit, List.filter_eq_nil_iff.mpr fun r hr => by simpa using hnone r hr]
  · rw [List.pairwise_map, hsplit] at hsorted
    obtain ⟨-, hcons, hcross⟩ := List.pairwise_append.mp hsorted
    have hbf : bf.filter (fun x => fromId ≤ x.id) = [] := by
      refine List.filter_eq_nil_iff.mpr fun x hx => ?_
      have hxr := hcross x hx r List.mem_cons_self
      rw [decide_eq_true_eq]
      intro hxle
      have := hmin x (by rw [hsplit]; exact List.mem_append_left _ hx) hxle
      omega
    have hge : ∀ x ∈ r :: af, r.id ≤ x.id := by
      intro x hx
      rcases List.mem_cons.mp hx with rfl | hx
      · exact Nat.le_refl _
      · exact Nat.le_of_lt ((List.pairwise_cons.mp hcons).1 x hx)
    rw [hit, hsplit, List.filter_append, hbf, List.nil_append,
      List.filter_eq_self.mpr fun x hx => by simpa using hge x hx,
      List.filter_eq_self.mpr fun x hx => by simpa using Nat.le_trans hle (hge x hx)]

/-- On stored records `iterate_from` is complete for every starting id
exactly if the ids ascend in file order. -/
theorem iterateFrom_stored_complete_iff (hdir : dir.files = segs.map (StoredSegment.file crc))
    (hwf : ∀ seg ∈ segs, seg.WellFormed crc)
    (hnd : ((allRecords segs).map WalRecord.id).Nodup) :
    (∀ fromId, ∃ out, iterateFrom crc (insertAll ∅ (allEntries segs)) dir fromId = .ok out ∧
      out.Perm ((allRecords segs).filter fun r => fromId ≤ r.id)) ↔
      ((allRecords segs).map WalRecord.id).Pairwise (· < ·) := by
  constructor
  · intro h
    rw [List.pairwise_map]
    refine pairwise_of_split fun before a after hall x hx => ?_
    by_contra hlt
    obtain ⟨out, hout, hperm⟩ := h a.id
    have hxmem : x ∈ out := by
      rw [hperm.mem_iff, List.mem_filter]
      exact ⟨by rw [hall]; exact List.mem_append_left _ hx, by simpa using hlt⟩
    have hamem : a ∈ allRecords segs := by rw [hall]; simp
    rcases iterateFrom_stored hdir hwf a.id with
      ⟨-, hnone⟩ | ⟨bf, r, af, hsplit, -, hle, hmin, hit⟩
    · exact Nat.lt_irrefl _ (hnone a hamem)
    · -- the smallest id from `a.id` on is that of `a` itself
      have hrmem : r ∈ allRecords segs := by rw [hsplit]; simp
      have hra : r = a := List.inj_on_of_nodup_map hnd hrmem hamem
        (Nat.le_antisymm (hmin a hamem (Nat.le_refl _)) hle)
      subst hra
      rw [hit, Except.ok.injEq] at hout
      have hxaf : x ∈ r :: af := by
        rw [← hout] at hxmem
        exact List.mem_of_mem_filter hxmem
      have hnd' := List.Nodup.of_map _ hnd
      rw [hall] at hsplit hnd'
      obtain ⟨-, hcons, hdisj⟩ := List.nodup_append.mp hnd'
      have hsame := (List.append_cons_inj_of_notMem
        (fun hr => hdisj r hr r List.mem_cons_self rfl) (List.nodup_cons.mp hcons).1).mp hsplit
      rw [← hsame.2.2] at hxaf
      exact hdisj x hx x hxaf rfl
  · intro hsorted fromId
    exact ⟨_, iterateFrom_stored_ascending hdir hwf hsorted fromId, .refl _⟩

/-- **`iterate_from` is complete exactly if requests were sent in the order
of their ids.** Once the writer is idle with an empty channel, every call
returns each record from the given id on once, and no other, if and only
if the records that were in the log and those accepted since stand in
ascending order of ids. A caller overtaken between taking its id and
sending its request breaks the order. -/
theorem iterateFrom_complete_iff {config : WalConfig} {o : Opened} {s : State}
    (hclean : CleanLog crc dir segs)
    (hopen : openWithConfig crc config (.directory dir) = .ok o) {synced : Nat → Nat}
    {as : List Action} (hrun : run (step crc) (o.start config synced) as = some s)
    (hids : o.nextId + s.taken ≤ 2 ^ 64) (hidle : s.pc = .idle) (hempty : s.channel = []) :
    (∀ fromId, ∃ out, iterateFrom crc s.index s.contents fromId = .ok out ∧
      out.Perm ((allRecords segs ++ s.accepted).filter fun r => fromId ≤ r.id)) ↔
      ((allRecords segs ++ s.accepted).map WalRecord.id).Pairwise (· < ·) := by
  obtain ⟨origin, L, hi, hindex, hrecords, hnext, htails⟩ := hclean.run_inv hopen hrun
  obtain ⟨hfiles, hwf, hall, hidx⟩ := hi.stored_of_idle htails hidle
  have haccepted : s.accepted = s.received := by
    simpa [hempty, channelRecords] using hi.requests.order (by rw [hidle]; simp)
  have hnd : ((origin.records ++ s.received).map WalRecord.id).Nodup :=
    hi.nodup_ids (hrecords ▸ hclean.nodup)
      (by rw [hrecords, hnext]; exact hclean.id_lt_nextId hopen) (by rw [hnext]; exact hids)
  rw [haccepted, ← hrecords, hidx, hindex, ← hall]
  exact iterateFrom_stored_complete_iff hfiles hwf (by rw [hall]; exact hnd)

/-- Two callers in turn, each sending what it has built. -/
def inOrderRun : List Action :=
  [.buildRequest [7] false, .sendRequest 0, .buildRequest [9] false, .sendRequest 0, .recv 1,
    .writeBatch .ok, .indexBatch 0]

/-- Two callers; the one that took its id second sends first. -/
def overtakenRun : List Action :=
  [.buildRequest [7] false, .buildRequest [9] false, .sendRequest 1, .sendRequest 0, .recv 1,
    .writeBatch .ok, .indexBatch 0]

theorem iterateFrom_complete_iff_in_order :
    ∃ s, run (step Crc32.crc32) (freshLog.start tinyConfig fun _ => headerLen) inOrderRun =
        some s ∧
      ∃ out, iterateFrom Crc32.crc32 s.index s.contents 2 = .ok out ∧ out.Perm [⟨2, [9]⟩] := by
  obtain ⟨s, hs, hids, hpc, hch, hacc⟩ : ∃ s, run (step Crc32.crc32)
      (freshLog.start tinyConfig fun _ => headerLen) inOrderRun = some s ∧
        freshLog.nextId + s.taken ≤ 2 ^ 64 ∧ s.pc = .idle ∧ s.channel = [] ∧
        s.accepted = [⟨1, [7]⟩, ⟨2, [9]⟩] := by decide +kernel
  have h := (iterateFrom_complete_iff (cleanLog_empty _) open_empty hs hids hpc hch).mpr
    (by rw [hacc]; decide)
  rw [hacc] at h
  exact ⟨s, hs, h 2⟩

/-- After the overtaken run, the record with id 2 is in the log, and
`iterate_from(1)` does not return it. -/
theorem iterateFrom_misses_overtaking_record :
    ∃ s, run (step Crc32.crc32) (freshLog.start tinyConfig fun _ => headerLen) overtakenRun =
        some s ∧
      s.pc = .idle ∧ s.channel = [] ∧ s.accepted = [⟨2, [9]⟩, ⟨1, [7]⟩] ∧
      iterateFrom Crc32.crc32 s.index s.contents 1 = .ok [⟨1, [7]⟩] := by
  decide +kernel

end Iterate

end BlipMQ.Wal
