import BlipMQ.Wal.Resting

/-!
# WAL — reading a compacted log

A call of `compact_below` on a log at rest takes away whole segments, with
the entries of the index that lead there, and no record above the threshold.
A walk that starts above the threshold does not see what is taken away, in
whatever order the ids stand in the files and whatever earlier calls have
left behind.
-/

namespace BlipMQ.Wal

/-! ## What a walk returns -/

/-- Places in the log, in the order of the files. -/
instance RecordLocation.instLE : LE RecordLocation where
  le a b := a.segmentSeq < b.segmentSeq ∨
    a.segmentSeq = b.segmentSeq ∧ a.offsetInSegment ≤ b.offsetInSegment

instance RecordLocation.decidableLE (a b : RecordLocation) : Decidable (a ≤ b) :=
  inferInstanceAs (Decidable (a.segmentSeq < b.segmentSeq ∨
    a.segmentSeq = b.segmentSeq ∧ a.offsetInSegment ≤ b.offsetInSegment))

/-- What a walk returns of the records: those from the start on with an id at
least `minId`. -/
def walkFrom (start : RecordLocation) (minId : Nat) (records : List (WalRecord × RecordLocation)) :
    List WalRecord :=
  (records.filter fun x => start ≤ x.2 && minId ≤ x.1.id).map Prod.fst

section Walk

variable {crc : Bytes → UInt32} {segs : List StoredSegment} {start : RecordLocation} {minId : Nat}

theorem walkFrom_append (xs ys : List (WalRecord × RecordLocation)) :
    walkFrom start minId (xs ++ ys) = walkFrom start minId xs ++ walkFrom start minId ys := by
  rw [walkFrom, List.filter_append, List.map_append]
  rfl

variable {records : List (WalRecord × RecordLocation)}

/-- Leaving out what does not count changes nothing. -/
theorem walkFrom_filter {p : WalRecord × RecordLocation → Bool}
    (h : ∀ x ∈ records, start ≤ x.2 → minId ≤ x.1.id → p x = true) :
    walkFrom start minId (records.filter p) = walkFrom start minId records := by
  rw [walkFrom, List.filter_filter]
  refine congrArg _ (List.filter_congr fun x hx => ?_)
  rw [Bool.and_eq_left_iff_imp, Bool.and_eq_true, decide_eq_true_eq, decide_eq_true_eq]
  rintro ⟨hstart, hle⟩
  exact h x hx hstart hle

theorem walkFrom_before (h : ∀ x ∈ records, ¬ start ≤ x.2) : walkFrom start minId records = [] := by
  rw [walkFrom, List.filter_eq_nil_iff.mpr fun x hx => by simp [h x hx], List.map_nil]

theorem walkFrom_behind (h : ∀ x ∈ records, start ≤ x.2) :
    walkFrom start minId records = (records.map Prod.fst).filter (minId ≤ ·.id) := by
  rw [walkFrom, List.filter_map]
  refine congrArg _ (List.filter_congr fun x hx => ?_)
  simp [h x hx]

/-- One segment of which the walk sees the records behind the first few. -/
theorem walkFrom_segment {seg : StoredSegment} {front back : List WalRecord}
    (hrec : seg.records = front ++ back)
    (hfront : ∀ o, headerLen ≤ o → o < headerLen + sizeAll front →
      ¬ start ≤ (⟨seg.seq, o⟩ : RecordLocation))
    (hback : ∀ o, headerLen + sizeAll front ≤ o → start ≤ (⟨seg.seq, o⟩ : RecordLocation)) :
    walkFrom start minId (allLocated [seg]) = back.filter (minId ≤ ·.id) := by
  rw [allLocated, List.flatMap_singleton, hrec, located_append, List.map_append, walkFrom_append,
    walkFrom_before, walkFrom_behind, List.nil_append, List.map_map]
  · exact congrArg _ (located_map_fst _ back)
  · intro x hx
    obtain ⟨⟨r, o⟩, hr, rfl⟩ := List.mem_map.mp hx
    obtain ⟨before, after, -, rfl⟩ := mem_located.mp hr
    exact hback _ (Nat.le_add_right _ _)
  · intro x hx
    obtain ⟨⟨r, o⟩, hr, rfl⟩ := List.mem_map.mp hx
    obtain ⟨before, after, rfl, rfl⟩ := mem_located.mp hr
    have hsize := r.le_size
    refine hfront _ (Nat.le_add_right _ _) ?_
    rw [sizeAll_append, sizeAll_cons]
    omega

/-- **A walk over segments from the start on** returns what stands there, if the start
is between two records. -/
theorem walkSegments_located (hwf : ∀ seg ∈ segs, seg.WellFormed crc)
    (hstart : ∀ seg ∈ segs, seg.seq = start.segmentSeq → ∃ front back,
      seg.records = front ++ back ∧ start.offsetInSegment = headerLen + sizeAll front)
    (hfrom : ∀ seg ∈ segs, start.segmentSeq ≤ seg.seq) :
    walkSegments crc start.segmentSeq start.offsetInSegment minId
        (segs.map (StoredSegment.file crc)) =
      .ok (walkFrom start minId (allLocated segs)) := by
  induction segs with
  | nil => rfl
  | cons seg segs ih =>
    obtain ⟨hwf, hwfs⟩ := List.forall_mem_cons.mp hwf
    obtain ⟨hstart, hstarts⟩ := List.forall_mem_cons.mp hstart
    obtain ⟨hfrom, hfroms⟩ := List.forall_mem_cons.mp hfrom
    -- where the segment is read from, and what the walk sees of it
    have hcut : ∃ front back, seg.records = front ++ back ∧
        (if seg.seq = start.segmentSeq then start.offsetInSegment else headerLen) =
          headerLen + sizeAll front ∧
        walkFrom start minId (allLocated [seg]) = back.filter (minId ≤ ·.id) := by
      by_cases hseq : seg.seq = start.segmentSeq
      · obtain ⟨front, back, hrec, hoff⟩ := hstart hseq
        refine ⟨front, back, hrec, by rw [if_pos hseq, hoff], walkFrom_segment hrec ?_ ?_⟩
        · rintro o - hlt (hseq' | ⟨-, hle⟩)
          · exact Nat.ne_of_gt hseq' hseq
          · exact Nat.not_le_of_lt hlt (hoff ▸ hle)
        · exact fun o hle => .inr ⟨hseq.symm, hoff ▸ hle⟩
      · refine ⟨[], seg.records, rfl, by rw [if_neg hseq]; rfl, ?_⟩
        refine walkFrom_segment (List.nil_append _).symm ?_ ?_
        · exact fun o hle hlt => absurd hle (Nat.not_le_of_lt hlt)
        · exact fun o _ => .inl (Nat.lt_of_le_of_ne hfrom (Ne.symm hseq))
    obtain ⟨front, back, hrec, hoff, hseen⟩ := hcut
    have hcons : allLocated (seg :: segs) = allLocated [seg] ++ allLocated segs := by
      simp [allLocated]
    rw [List.map_cons, show seg.file crc = (seg.seq, (seg.file crc).2) from rfl, walkSegments,
      hoff, hwf.scan_from hrec, ih hwfs hstarts hfroms, hcons, walkFrom_append, hseen]
    simp only [Except.map, located_map_fst]

end Walk

/-! ## What a call takes away -/

/-- The index has no id above `t` in segment `q`. -/
def NothingAbove (index : Index) (t q : Nat) : Prop :=
  ∀ id loc, index.lookup id = some loc → loc.segmentSeq = q → id ≤ t

theorem nothingAbove_of_maxIds {index : Index} {t q : Nat}
    (h : ∀ m, (maxIdPerSegment index).lookup q = some m → m ≤ t) : NothingAbove index t q := by
  rintro id loc hlook rfl
  obtain ⟨m, hm, hle⟩ := le_maxIdPerSegment hlook
  exact Nat.le_trans hle (h m hm)

theorem maxId_le_of_chosen {safeThreshold activeSeq q m : Nat} {maxIds : MaxIds}
    {listed : List Nat} (hq : q ∈ segmentsToDelete safeThreshold activeSeq maxIds listed)
    (hm : maxIds.lookup q = some m) : m ≤ safeThreshold := by
  obtain ⟨-, ⟨m', hm', hle⟩ | ⟨-, hnone⟩⟩ := mem_segmentsToDelete.mp hq
  · rw [hm, Option.some.injEq] at hm'
    rw [hm']
    exact hle
  · rw [hm] at hnone
    cases hnone

/-- `c` is the log `c₀`, of which calls with thresholds up to `t` have taken something
away. -/
structure Spares (c₀ : Compacting) (t : Nat) (c : Compacting) : Prop where
  log : ∀ index, c.log.withIndex index = c₀.log.withIndex index
  index : ∀ id loc, c.log.index.lookup id = some loc → c₀.log.index.lookup id = some loc
  above : ∀ id loc, c₀.log.index.lookup id = some loc → t < id → c.log.index.lookup id = some loc
  older : ∀ q ∈ c₀.removedSeqs, q ∈ c.removedSeqs
  removed : ∀ q ∈ c.removedSeqs, q ∈ c₀.removedSeqs ∨ NothingAbove c₀.log.index t q

section Spares

variable {crc : Bytes → UInt32} {c₀ c : Compacting} {t : Nat} {segs : List StoredSegment}

theorem Spares.refl (c : Compacting) (t : Nat) : Spares c t c :=
  ⟨fun _ => rfl, fun _ _ hlook => hlook, fun _ _ hlook _ => hlook, fun _ hq => hq,
    fun _ hq => .inl hq⟩

theorem Spares.dir (h : Spares c₀ t c) : c.log.dir = c₀.log.dir := by
  have hlog := congrArg State.dir (h.log ∅)
  exact hlog

theorem Spares.lookup_above (h : Spares c₀ t c) {id : Nat} (hid : t < id) :
    c.log.index.lookup id = c₀.log.index.lookup id := by
  refine Option.ext fun loc => ⟨h.index id loc, fun hlook => h.above id loc hlook hid⟩

/-- The files that are left. -/
theorem Spares.files (h : Spares c₀ t c) (hrest : Resting crc c₀ segs) :
    c.contents.files =
      (segs.filter fun seg => seg.seq ∉ c.removedSeqs).map (StoredSegment.file crc) := by
  have hcontents : c.contents = c₀.contents.filter fun q => q ∉ c.removedSeqs := by
    rw [Compacting.contents, Compacting.contents, Dir.filter_filter, State.contents, h.dir]
    refine Dir.ext_files (List.filter_congr fun p _ => ?_)
    rw [Bool.eq_iff_iff, Bool.and_eq_true, decide_eq_true_eq, decide_eq_true_eq]
    exact ⟨fun hnot => ⟨hnot, fun hold => hnot (h.older _ hold)⟩, And.left⟩
  have hfilter : c.contents.files = c₀.contents.files.filter fun p => p.1 ∉ c.removedSeqs :=
    congrArg Dir.files hcontents
  rw [hfilter, hrest.clean.files, List.filter_map]
  rfl

theorem Spares.listSegmentSeqs_eq (h : Spares c₀ t c) (hrest : Resting crc c₀ segs) :
    c.listSegmentSeqs =
      (segs.filter fun seg => seg.seq ∉ c.removedSeqs).map StoredSegment.seq := by
  rw [Wal.listSegmentSeqs_eq, seqs_of_files (h.files hrest)]

/-- A record above the threshold stands in a file that is left. -/
theorem Spares.not_removed (h : Spares c₀ t c) (hrest : Resting crc c₀ segs)
    {x : WalRecord × RecordLocation} (hx : x ∈ allLocated segs) (hid : t < x.1.id) :
    x.2.segmentSeq ∉ c.removedSeqs := by
  intro hgone
  rcases h.removed _ hgone with hold | hnothing
  · obtain ⟨seg, hseg, hmem⟩ := List.mem_flatMap.mp hx
    obtain ⟨y, -, rfl⟩ := List.mem_map.mp hmem
    exact hrest.notMem_removed hseg hold
  · exact absurd (hnothing _ _ (hrest.lookup hx) rfl) (Nat.not_le_of_lt hid)

variable {loc : RecordLocation} {minId : Nat}

/-- Where the index leads is between two records of a file, or in no file that is
left. -/
theorem Resting.cut (h : Resting crc c₀ segs) {id : Nat}
    (hlook : c₀.log.index.lookup id = some loc) {seg : StoredSegment} (hseg : seg ∈ segs)
    (hseq : seg.seq = loc.segmentSeq) :
    ∃ front back, seg.records = front ++ back ∧
      loc.offsetInSegment = headerLen + sizeAll front := by
  rcases h.entries id loc hlook with hentry | hgone
  · obtain ⟨seg', hseg', r, -, hseq', hr⟩ := mem_allEntries.mp hentry
    obtain ⟨front, back, hrec, hoff⟩ := mem_located.mp hr
    obtain rfl : seg' = seg := h.seq_inj hseg' hseg (hseq'.symm.trans hseq.symm)
    exact ⟨front, r :: back, hrec, hoff⟩
  · exact absurd (hseq ▸ hgone) (h.notMem_removed hseg)

/-- A walk from a place the index leads to, over some of the files. -/
theorem Resting.walk_eq (h : Resting crc c₀ segs) (hlook : c₀.log.index.lookup minId = some loc)
    (p : Nat → Bool) :
    walkSegments crc loc.segmentSeq loc.offsetInSegment minId
        ((segs.filter fun seg => loc.segmentSeq ≤ seg.seq && p seg.seq).map
          (StoredSegment.file crc)) =
      .ok (walkFrom loc minId (allLocated (segs.filter fun seg => p seg.seq))) := by
  rw [walkSegments_located]
  · -- segments before the start do not count
    rw [← allLocated_filter segs fun q => loc.segmentSeq ≤ q && p q, ← List.filter_filter,
      walkFrom_filter, allLocated_filter segs p]
    rintro x - (hlt | ⟨heq, -⟩) -
    · exact decide_eq_true (Nat.le_of_lt hlt)
    · exact decide_eq_true (Nat.le_of_eq heq)
  · exact fun seg hseg => h.clean.wellFormed seg (List.mem_of_mem_filter hseg)
  · exact fun seg hseg hseq => h.cut hlook (List.mem_of_mem_filter hseg) hseq
  · intro seg hseg
    have hkept := (List.mem_filter.mp hseg).2
    rw [Bool.and_eq_true, decide_eq_true_eq] at hkept
    exact hkept.1

/-- A record is in what a walk over some of the files returns if it stands in one of
them from the start on. No other record has its id. -/
theorem Resting.mem_walkFrom (h : Resting crc c₀ segs) {x : WalRecord × RecordLocation}
    (hx : x ∈ allLocated segs) {start : RecordLocation} (hle : minId ≤ x.1.id) {p : Nat → Bool}
    (hp : p x.2.segmentSeq = true) :
    x.1 ∈ walkFrom start minId ((allLocated segs).filter fun x => p x.2.segmentSeq) ↔
      start ≤ x.2 := by
  constructor
  · intro hmem
    obtain ⟨y, hy, heq⟩ := List.mem_map.mp hmem
    obtain ⟨hy, hstart⟩ := List.mem_filter.mp hy
    have hlook := h.lookup (List.mem_of_mem_filter hy)
    rw [heq, h.lookup hx, Option.some.injEq] at hlook
    rw [Bool.and_eq_true, decide_eq_true_eq] at hstart
    rw [hlook]
    exact hstart.1
  · intro hstart
    refine List.mem_map.mpr ⟨x, List.mem_filter.mpr ⟨List.mem_filter.mpr ⟨hx, hp⟩, ?_⟩, rfl⟩
    rw [Bool.and_eq_true, decide_eq_true_eq, decide_eq_true_eq]
    exact ⟨hstart, hle⟩

/-- What `iterate_from` returns on what is left. -/
theorem Spares.iterateFrom_eq (h : Spares c₀ t c) (hrest : Resting crc c₀ segs) {f : Nat}
    (hfirst : firstFrom c.log.index f = some (minId, loc)) :
    iterateFrom crc c.log.index c.contents f = .ok (walkFrom loc minId
      (allLocated (segs.filter fun seg => seg.seq ∉ c.removedSeqs))) := by
  have hlook := h.index _ _ (firstFrom_some hfirst).1
  rw [iterateFrom, hfirst]
  dsimp only
  rw [h.files hrest, List.filter_map, List.filter_filter]
  exact hrest.walk_eq hlook fun q => q ∉ c.removedSeqs

/-- **Above the threshold a walk returns the same.** -/
theorem Spares.iterateFrom_above (h : Spares c₀ t c) (hrest : Resting crc c₀ segs) {f : Nat}
    (hf : t < f) : ∃ out, iterateFrom crc c₀.log.index c₀.contents f = .ok out ∧
      iterateFrom crc c.log.index c.contents f = .ok out := by
  have hsame : firstFrom c.log.index f = firstFrom c₀.log.index f :=
    firstFrom_congr fun id hid => h.lookup_above (Nat.lt_of_lt_of_le hf hid)
  cases hfirst : firstFrom c₀.log.index f with
  | none =>
    rw [hfirst] at hsame
    exact ⟨[], by rw [iterateFrom, hfirst], by rw [iterateFrom, hsame]⟩
  | some first =>
    obtain ⟨minId, loc⟩ := first
    rw [hfirst] at hsame
    have hmin : t < minId := Nat.lt_of_lt_of_le hf (firstFrom_some hfirst).2.1
    refine ⟨_, (Spares.refl c₀ t).iterateFrom_eq hrest hfirst, ?_⟩
    rw [h.iterateFrom_eq hrest hsame, ← allLocated_filter segs fun q => q ∉ c.removedSeqs,
      ← allLocated_filter segs fun q => q ∉ c₀.removedSeqs, walkFrom_filter, walkFrom_filter]
    · intro x hx _ hle
      exact decide_eq_true ((Spares.refl c₀ t).not_removed hrest hx (Nat.lt_of_lt_of_le hmin hle))
    · intro x hx _ hle
      exact decide_eq_true (h.not_removed hrest hx (Nat.lt_of_lt_of_le hmin hle))

end Spares

/-! ## A call on a log at rest -/

namespace Compacting

variable {c : Compacting} {t q : Nat}

theorem mem_chosenFiles : q ∈ c.chosenFiles t ↔ q ∈ c.toDelete t ∧ q ∈ c.listSegmentSeqs := by
  rw [chosenFiles, List.mem_filter, decide_eq_true_eq]

theorem mem_removedSeqs_afterCall :
    q ∈ (c.afterCall t).removedSeqs ↔ q ∈ c.removedSeqs ∨ q ∈ c.chosenFiles t := by
  rw [removedSeqs_afterCall, List.mem_append]

/-- What is listed and not chosen is still listed. -/
theorem mem_listSegmentSeqs_afterCall :
    q ∈ (c.afterCall t).listSegmentSeqs ↔ q ∈ c.listSegmentSeqs ∧ q ∉ c.toDelete t := by
  rw [mem_listSegmentSeqs, mem_listSegmentSeqs, mem_removedSeqs_afterCall, mem_chosenFiles,
    mem_listSegmentSeqs, not_or, and_assoc]
  refine and_congr_right fun hfile => and_congr_right fun hnot => ?_
  rw [not_and', forall_prop_of_true ⟨hfile, hnot⟩]

theorem nothingAbove_of_toDelete (hq : q ∈ c.toDelete t) : NothingAbove c.log.index t q :=
  nothingAbove_of_maxIds fun _ hm => maxId_le_of_chosen hq hm

theorem spares_afterCall (c : Compacting) (t : Nat) : Spares c t (c.afterCall t) where
  log := fun _ => rfl
  index := fun _ _ hlook => (lookup_pruned.mp hlook).1
  above := by
    intro id loc hlook hid
    refine lookup_pruned.mpr ⟨hlook, fun _ hmem => ?_⟩
    exact absurd (nothingAbove_of_toDelete hmem id loc hlook rfl) (Nat.not_le_of_lt hid)
  older := fun _ hq => mem_removedSeqs_afterCall.mpr (.inl hq)
  removed := fun _ hq => (mem_removedSeqs_afterCall.mp hq).imp_right fun hchosen =>
    nothingAbove_of_toDelete (mem_chosenFiles.mp hchosen).1

end Compacting

/-- `c'` is `c` with nothing taken away above `t`, and nothing that is still led to. -/
structure Invisible (crc : Bytes → UInt32) (c : Compacting) (t : Nat) (c' : Compacting) :
    Prop where
  reads : ∀ f, t < f → ∃ out, iterateFrom crc c.log.index c.contents f = .ok out ∧
    iterateFrom crc c'.log.index c'.contents f = .ok out
  deleted : ∀ q file, c.contents.find? q = some file → q ∉ c'.listSegmentSeqs →
    ∀ r ∈ recordsFound crc file, r.id ≤ t
  active : c'.log.currentSegmentSeq = c.log.currentSegmentSeq
  activeListed : c.log.currentSegmentSeq ∈ c.listSegmentSeqs →
    c.log.currentSegmentSeq ∈ c'.listSegmentSeqs
  entries : ∀ id loc, c'.log.index.lookup id = some loc → c.log.index.lookup id = some loc
  located : ∀ id loc, c'.log.index.lookup id = some loc → loc.segmentSeq ∈ c.listSegmentSeqs →
    ∃ r, r.id = id ∧ HeldAt crc c.contents r loc ∧ HeldAt crc c'.contents r loc

section Call

variable {crc : Bytes → UInt32} {c : Compacting} {segs : List StoredSegment}

theorem Resting.wholeStep_compactBelow (h : Resting crc c segs) (t : Nat) :
    c.wholeStep crc (.compactBelow t) = some (c.afterCall t) := by
  rw [Compacting.wholeStep, if_pos h.rolled]
  exact c.run_afterCall crc t

/-- A file that has a name holds one of the segments. -/
theorem Resting.stored_of_find (h : Resting crc c segs) {q : Nat} {file : Bytes}
    (hfile : c.contents.find? q = some file) :
    ∃ seg ∈ segs, seg.seq = q ∧ recordsFound crc file = seg.records := by
  have hmem := Dir.find?_eq_some.mp hfile
  rw [h.clean.files] at hmem
  obtain ⟨seg, hseg, heq⟩ := List.mem_map.mp hmem
  have hbytes : (seg.file crc).2 = file := congrArg Prod.snd heq
  refine ⟨seg, hseg, congrArg Prod.fst heq, ?_⟩
  rw [← hbytes, recordsFound, h.scan_file hseg]
  exact located_map_fst headerLen seg.records

/-- A segment without an indexed id above `t` has no record above `t`. -/
theorem Resting.records_below (h : Resting crc c segs) {seg : StoredSegment} (hseg : seg ∈ segs)
    {t : Nat} (hnothing : NothingAbove c.log.index t seg.seq) : ∀ r ∈ seg.records, r.id ≤ t := by
  intro r hr
  rw [← located_map_fst headerLen seg.records] at hr
  obtain ⟨⟨x, o⟩, hx, rfl⟩ := List.mem_map.mp hr
  have hmem : (x, (⟨seg.seq, o⟩ : RecordLocation)) ∈ allLocated segs :=
    List.mem_flatMap.mpr ⟨seg, hseg, List.mem_map.mpr ⟨(x, o), hx, rfl⟩⟩
  exact hnothing x.id _ (h.lookup hmem) rfl

/-- An entry of the index that leads to a file leads to a record with its id. -/
theorem Resting.located_of_lookup (h : Resting crc c segs) {id : Nat} {loc : RecordLocation}
    (hlook : c.log.index.lookup id = some loc) (hlisted : loc.segmentSeq ∈ c.listSegmentSeqs) :
    ∃ r, r.id = id ∧ (r, loc) ∈ allLocated segs := by
  have hnot := (Compacting.mem_listSegmentSeqs.mp hlisted).2
  have hentry := (h.entries id loc hlook).resolve_right hnot
  rw [← allLocated_entries] at hentry
  obtain ⟨⟨r, loc'⟩, hmem, heq⟩ := List.mem_map.mp hentry
  cases heq
  exact ⟨r, rfl, hmem⟩

theorem Resting.invisible (h : Resting crc c segs) (t : Nat) :
    Invisible crc c t (c.afterCall t) := by
  have hspares := c.spares_afterCall t
  have hfiles := hspares.files h
  refine ⟨fun f hf => hspares.iterateFrom_above h hf, ?_, rfl, ?_, hspares.index, ?_⟩
  · intro q file hfile hgone r hr
    obtain ⟨seg, hseg, rfl, hfound⟩ := h.stored_of_find hfile
    rw [hfound] at hr
    refine h.records_below hseg (Compacting.nothingAbove_of_toDelete (t := t) ?_) r hr
    by_contra hkept
    refine hgone (Compacting.mem_listSegmentSeqs_afterCall.mpr ⟨?_, hkept⟩)
    rw [listSegmentSeqs_eq, seqs_of_files h.clean.files]
    exact List.mem_map_of_mem hseg
  · intro hlisted
    refine Compacting.mem_listSegmentSeqs_afterCall.mpr ⟨hlisted, fun hchosen => ?_⟩
    exact (mem_segmentsToDelete.mp hchosen).1 rfl
  · intro id loc hlook hlisted
    obtain ⟨hold, hpruned⟩ := lookup_pruned.mp hlook
    obtain ⟨r, hid, hmem⟩ := h.located_of_lookup hold hlisted
    refine ⟨r, hid, heldAt_of_mem_allLocated h.clean.files hmem,
      heldAt_of_mem_allLocated hfiles ?_⟩
    -- had its file been removed, its entry would have been pruned
    rw [← allLocated_filter segs fun q => q ∉ (c.afterCall t).removedSeqs]
    refine List.mem_filter.mpr ⟨hmem, decide_eq_true fun hgone => ?_⟩
    rcases Compacting.mem_removedSeqs_afterCall.mp hgone with hgone | hchosen
    · exact (Compacting.mem_listSegmentSeqs.mp hlisted).2 hgone
    · exact hpruned (List.length_pos_of_mem hchosen) (Compacting.mem_chosenFiles.mp hchosen).1

end Call

/-- **Compaction is invisible above its threshold.** On a log that has come to rest,
whatever the order of the ids in its files and whatever calls it has seen, also ones that
have failed or raced with a roll, a call of `compact_below` goes through; a walk that
starts above the threshold returns the same as before; what is deleted held no record
above the threshold; the active segment stays, if it was there; and each entry of the
index that is left leads to the record it led to. After calls that have run from start to
end one by one, the active segment is there and every entry leads to a file. -/
theorem compaction_invisible {crc : Bytes → UInt32} {config : WalConfig} {dir : Dir Bytes}
    {segs : List StoredSegment} {o : Opened} (hclean : CleanLog crc dir segs)
    (hopen : openWithConfig crc config (.directory dir) = .ok o) {synced : Nat → Nat}
    {as : List CompactAction} {c : Compacting}
    (hrun : run (Compacting.step crc) (Compacting.start o config synced) as = some c)
    (hids : o.nextId + c.log.taken < 2 ^ 64) (hidle : c.log.pc = .idle) (t : Nat) :
    (∃ c', c.wholeStep crc (.compactBelow t) = some c' ∧ Invisible crc c t c') ∧
      ∀ whole, run (Compacting.wholeStep crc) (Compacting.start o config synced) whole = some c →
        c.log.currentSegmentSeq ∈ c.listSegmentSeqs ∧
        ∀ id loc, c.log.index.lookup id = some loc → loc.segmentSeq ∈ c.listSegmentSeqs := by
  obtain ⟨segs', h⟩ := hclean.run_resting hopen hrun hids hidle
  refine ⟨⟨c.afterCall t, h.wholeStep_compactBelow t, h.invisible t⟩, fun whole hwhole => ?_⟩
  obtain ⟨origin, full, L, hpruned, -⟩ := hclean.run_prunedInv hopen hwhole (Nat.le_of_lt hids)
  constructor
  · have hactive : c.log.currentSegmentSeq = L.active.seq := hpruned.inv.disk.currentSeq
    rw [hactive]
    exact Compacting.mem_listSegmentSeqs.mpr
      ⟨hpruned.inv.seq_mem_files L.active_mem, hpruned.active_notMem⟩
  · intro id loc hlook
    exact Compacting.mem_listSegmentSeqs.mpr
      ⟨hpruned.files id loc hlook, hpruned.notMem_removed hlook⟩

/-- Two segments, and a threshold that takes in the first. -/
theorem compaction_invisible_two_segments :
    ∃ c c', run (Compacting.step Crc32.crc32)
        (Compacting.start freshLog tinyConfig fun _ => headerLen) (twoSegmentRun.map .log) =
          some c ∧
      c.wholeStep Crc32.crc32 (.compactBelow 1) = some c' ∧
      iterateFrom Crc32.crc32 c'.log.index c'.contents 2 = .ok [⟨2, [9]⟩] ∧
      c'.log.currentSegmentSeq ∈ c'.listSegmentSeqs := by
  obtain ⟨c, hc, hids, hidle, hlisted, hout⟩ : ∃ c, run (Compacting.step Crc32.crc32)
      (Compacting.start freshLog tinyConfig fun _ => headerLen) (twoSegmentRun.map .log) = some c ∧
        freshLog.nextId + c.log.taken < 2 ^ 64 ∧ c.log.pc = .idle ∧
        c.log.currentSegmentSeq ∈ c.listSegmentSeqs ∧
        iterateFrom Crc32.crc32 c.log.index c.contents 2 = .ok [⟨2, [9]⟩] := by decide +kernel
  obtain ⟨⟨c', hc', h⟩, -⟩ := compaction_invisible (cleanLog_empty _) open_empty hc hids hidle 1
  obtain ⟨out, hbefore, hafter⟩ := h.reads 2 (by decide)
  rw [hout] at hbefore
  cases hbefore
  refine ⟨c, c', hc, hc', hafter, ?_⟩
  rw [h.active]
  exact h.activeListed hlisted

end BlipMQ.Wal
