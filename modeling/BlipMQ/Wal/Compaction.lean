import BlipMQ.Wal.Compactor
import BlipMQ.Wal.Durability
import BlipMQ.Wal.Recovered

/-!
# WAL — compacting beside a running writer

A call of `compact_below` decides from three looks at the log that are not
one: the active segment it loads, the index it scans, and the directory it
lists. The writer may roll between any two of them. What the call removes
is safe as long as every segment it lists and does not know from before
the roll was closed by the time of the scan.
-/

namespace BlipMQ.Wal

/-! ## The writer does not read the index -/

def State.withIndex (s : State) (index : Index) : State := { s with index := index }

/-- The index entries a step adds. -/
def Action.indexed (s : State) : Action → List (Nat × RecordLocation)
  | .indexBatch _ => s.pc.unindexed.2
  | _ => []

section WithIndex

variable {crc : Bytes → UInt32} {s s' : State} {a : Action}

@[simp] theorem State.withIndex_pc (index : Index) : (s.withIndex index).pc = s.pc := rfl

/-- The state with another index and more answered flushes in its books. -/
def State.beside (s : State) (index : Index)
    (noted : List (List WalRecord × Except WalError Unit)) : State :=
  { s with index := index, flushAnswers := noted ++ s.flushAnswers }

/-- No step reads the index or the answers. -/
theorem step_beside (s : State) (index : Index)
    (noted : List (List WalRecord × Except WalError Unit)) (a : Action) :
    step crc (s.beside index noted) a = (step crc s a).map fun s' =>
      s'.beside (insertAll index (a.indexed s)) noted := by
  have hsend : sendError (s.beside index noted) = sendError s := rfl
  have hpc : (s.beside index noted).pc = s.pc := rfl
  cases a with
  | buildRequest data durable =>
    simp only [step, stepBuild, State.beside, buildRequest, Option.map_some]
    split_ifs <;> rfl
  | sendRequest i =>
    have hbuilding : (s.beside index noted).building = s.building := rfl
    simp only [step, stepSend, hsend, hbuilding]
    cases s.building[i]? with
    | none => rfl
    | some request => cases sendError s <;> rfl
  | sendFlush =>
    simp only [step, stepSendFlush, hsend]
    cases sendError s <;> rfl
  | recv more =>
    have hchannel : (s.beside index noted).channel = s.channel := rfl
    simp only [step, stepRecv, hpc, hchannel]
    cases s.pc with
    | idle => rcases s.channel with - | ⟨⟨request⟩ | -, channel⟩ <;> rfl
    | _ => rfl
  | createSegment result =>
    have hcreate : (s.beside index noted).dir.create = s.dir.create := rfl
    have hseq : (s.beside index noted).currentSegmentSeq = s.currentSegmentSeq := rfl
    simp only [step, stepCreate, hpc, hcreate, hseq]
    cases s.pc with
    | rollCreate batch flush =>
      cases result with
      | failed reason => rfl
      | ok =>
        dsimp only
        split
        · rfl
        · cases s.dir.create (s.currentSegmentSeq + 1) ⟨[], 0⟩ <;> rfl
    | _ => rfl
  | flushFile result =>
    simp only [step, stepFlushFile, hpc]
    cases s.pc with
    | flush => cases result <;> simp [State.beside, State.flushFile, Action.indexed, insertAll]
    | _ => cases result <;> rfl
  | writeHeader result | syncHeader result | writeBatch result =>
    simp only [step, stepWriteHeader, stepSyncHeader, stepWriteBatch, hpc]
    cases s.pc <;> cases result <;> rfl
  | indexBatch elapsed =>
    simp only [step, stepIndexBatch, Action.indexed, hpc]
    cases s.pc <;> rfl

theorem step_taken_le (hs : step crc s a = some s') : s.taken ≤ s'.taken := by
  cases stepped_of_step hs with
  | caller _ hle => exact hle
  | rollFlushed result | synced result | flushed result => cases result <;> exact Nat.le_refl _
  | _ => exact Nat.le_refl _

theorem step_index (hs : step crc s a = some s') : s'.index = insertAll s.index (a.indexed s) := by
  have hsame : step crc s a = (step crc s a).map fun s' =>
      s'.beside (insertAll s.index (a.indexed s)) [] := step_beside s s.index [] a
  rw [hs] at hsame
  exact congrArg State.index (Option.some.inj hsame)

/-- A step does the same with any other index, up to the entries it adds. -/
theorem step_withIndex (hs : step crc s a = some s') (index : Index) :
    step crc (s.withIndex index) a = some (s'.withIndex (insertAll index (a.indexed s))) := by
  refine (step_beside s index [] a).trans ?_
  rw [hs]
  rfl

end WithIndex

/-! ## How the layout grows -/

/-- The same start, with the segments closed by now as the ones to keep. -/
def Origin.rebase (origin : Origin) (L : Layout) : Origin :=
  { origin with closed := L.closed, tailSeq := L.active.seq }

/-- Closed segments stay as they are, and numbers only go up. -/
structure Layout.Grows (L L' : Layout) : Prop where
  active_le : L.active.seq ≤ L'.active.seq
  closed : ∀ seg ∈ L'.segs, seg.seq < L.active.seq → seg ∈ L.segs
  seqs : ∀ seg ∈ L.segs, ∃ seg' ∈ L'.segs, seg'.seq = seg.seq

section Grows

variable {crc : Bytes → UInt32} {origin : Origin} {Base : Bytes → Prop} {s s' : State}
  {L L' : Layout}

theorem Kept.trans (h : Kept origin L) (h' : Kept (origin.rebase L) L') : Kept origin L' := by
  rcases h' with ⟨hclosed', hseq'⟩ | ⟨tail', later', hclosed', hseq'⟩
  · rcases h with ⟨hclosed, hseq⟩ | ⟨tail, later, hclosed, hseq⟩
    · exact .inl ⟨hclosed'.trans hclosed, hseq'.trans hseq⟩
    · exact .inr ⟨tail, later, hclosed'.trans hclosed, hseq⟩
  · rcases h with ⟨hclosed, hseq⟩ | ⟨tail, later, hclosed, hseq⟩
    · exact .inr ⟨tail', later', by rw [hclosed', ← hclosed]; rfl, hseq'.trans hseq⟩
    · refine .inr ⟨tail, later ++ tail' :: later', ?_, hseq⟩
      rw [hclosed']
      show L.closed ++ tail' :: later' = _
      rw [hclosed]
      simp

variable {seg : Seg}

theorem Inv.seq_le_active (h : Inv crc origin Base s L) (hseg : seg ∈ L.segs) :
    seg.seq ≤ L.active.seq := by
  have hsorted := h.segs_sorted
  rw [Layout.segs, List.pairwise_append] at hsorted
  rcases Layout.mem_segs.mp hseg with hclosed | rfl
  · exact Nat.le_of_lt (hsorted.2.2 seg hclosed L.active (List.mem_singleton_self _))
  · exact Nat.le_refl _

/-- A segment of the layout has its file. -/
theorem Inv.seq_mem_files (h : Inv crc origin Base s L) (hseg : seg ∈ L.segs) :
    seg.seq ∈ s.dir.seqs := by
  rw [Dir.seqs, h.disk.files, Layout.files, List.map_append]
  refine List.mem_append_left _ ?_
  rw [List.map_map]
  exact List.mem_map_of_mem (f := Prod.fst ∘ Seg.file crc) hseg

theorem Inv.grows (h : Inv crc origin Base s L') (hkept : Kept (origin.rebase L) L') :
    L.Grows L' := by
  obtain ⟨tail, later, hsegs, hseq⟩ := hkept.segs
  have hsegs' : L'.segs = L.closed ++ tail :: later := hsegs
  have hseq' : tail.seq = L.active.seq := hseq
  have hsorted := h.segs_sorted
  rw [hsegs', List.pairwise_append] at hsorted
  have hlater : ∀ seg ∈ later, L.active.seq < seg.seq := fun seg hseg =>
    hseq' ▸ (List.pairwise_cons.mp hsorted.2.1).1 seg hseg
  refine ⟨?_, ?_, ?_⟩
  · rw [← hseq']
    exact h.seq_le_active (by rw [hsegs']; simp)
  · intro seg hseg hlt
    rw [hsegs', List.mem_append, List.mem_cons] at hseg
    rcases hseg with hmem | rfl | hmem
    · exact Layout.mem_segs.mpr (.inl hmem)
    · omega
    · have := hlater seg hmem
      omega
  · intro seg hseg
    rcases Layout.mem_segs.mp hseg with hmem | rfl
    · exact ⟨seg, by rw [hsegs']; simp [hmem], rfl⟩
    · exact ⟨tail, by rw [hsegs']; simp, hseq'⟩

theorem Inv.step_grows (h : Inv crc origin Base s L) (hbase : Base segmentHeader) {a : Action}
    (hs : Wal.step crc s a = some s') : ∃ L', Inv crc origin Base s' L' ∧ L.Grows L' := by
  have hre : Inv crc (origin.rebase L) Base s L :=
    ⟨{ h.disk with kept := .inl ⟨rfl, rfl⟩ }, { h.index with }, { h.log with },
      { h.requests with }, h.acks⟩
  obtain ⟨L', h'⟩ := hre.step hbase hs
  have hi : Inv crc origin Base s' L' :=
    ⟨{ h'.disk with kept := h.disk.kept.trans h'.disk.kept }, { h'.index with }, { h'.log with },
      { h'.requests with }, h'.acks⟩
  exact ⟨L', hi, hi.grows h'.disk.kept⟩

/-- The index has every record of a closed segment. -/
theorem Inv.lookup_closed (h : Inv crc origin Base s L) (hnd : (L.records.map WalRecord.id).Nodup)
    (hseg : seg ∈ L.segs) (hlt : seg.seq < L.active.seq) {r : WalRecord} (hr : r ∈ seg.records) :
    ∃ o, s.index.lookup r.id = some ⟨seg.seq, o⟩ := by
  rw [← located_map_fst seg.base.length seg.records] at hr
  obtain ⟨⟨x, o⟩, hx, rfl⟩ := List.mem_map.mp hr
  refine ⟨o, h.lookup hnd hseg hx ?_⟩
  intro hmem
  obtain ⟨loc, hloc, hlook⟩ := exists_lookup_insertAll hmem s.index
  rw [h.lookup_all hnd hseg hx, Option.some.injEq] at hlook
  subst hlook
  have hseq : seg.seq = L.active.seq := (h.index.offsets _ hloc).1
  omega

end Grows

/-! ## The invariant of all runs -/

/-- The numbers a call works with are those of files, and the ones it has passed are
removed. -/
def Compactor.Passes (files removed : List Nat) : Compactor → Prop
  | .loaded _ _ => True
  | .scanned _ _ maxIds _ => ∀ q m, maxIds.lookup q = some m → q ∈ files
  | .removing _ toDelete rest _ =>
    ∃ gone, toDelete = gone ++ rest ∧ (∀ q ∈ gone, q ∈ removed) ∧ ∀ q ∈ rest, q ∈ files
  | .done _ => True

/-- What holds whatever the calls list: a removed file may be the active one, and may
hold what is above the threshold. `full` is the index as the writer has filled
it, without any pruning. -/
structure LooseInv (crc : Bytes → UInt32) (origin : Origin) (c : Compacting) (full : Index)
    (L : Layout) : Prop where
  inv : Inv crc origin (· = segmentHeader) (c.log.withIndex full) L
  kept : ∀ id loc, full.lookup id = some loc → loc.segmentSeq ∉ c.removedSeqs →
    c.log.index.lookup id = some loc
  entered : ∀ id loc, c.log.index.lookup id = some loc → full.lookup id = some loc
  files : ∀ id loc, c.log.index.lookup id = some loc → loc.segmentSeq ∈ c.log.dir.seqs
  compactors : ∀ k ∈ c.compactors, k.Passes c.log.dir.seqs c.removedSeqs

section Loose

variable {crc : Bytes → UInt32} {origin : Origin} {c c' : Compacting} {full : Index} {L : Layout}
  {a : Action}

/-- The process removes no file from the directory by itself. -/
theorem step_mem_seqs {s s' : State} (hs : step crc s a = some s') {q : Nat} (hq : q ∈ s.dir.seqs) :
    q ∈ s'.dir.seqs := by
  have hmodify (seq : Nat) (g : SegFile → SegFile) : q ∈ (s.dir.modify seq g).seqs := by
    rw [Dir.seqs_modify]
    exact hq
  cases stepped_of_step hs with
  | created _ hcreate =>
    exact (Dir.keeps_create (R := fun _ _ => True) (fun _ => trivial) hcreate).mem_seqs hq
  | rollFlushed result | synced result | flushed result =>
    cases result with
    | ok => exact hmodify _ _
    | failed reason => exact hq
  | headed | headTorn | moved | wrote | torn => exact hmodify _ _
  | _ => exact hq

theorem Layout.Grows.refl (L : Layout) : L.Grows L :=
  ⟨Nat.le_refl _, fun _ hseg _ => hseg, fun seg hseg => ⟨seg, hseg, rfl⟩⟩

theorem Compactor.Passes.mono {files files' removed removed' : List Nat} {k : Compactor}
    (h : k.Passes files removed) (hfiles : ∀ q ∈ files, q ∈ files')
    (hremoved : ∀ q ∈ removed, q ∈ removed') : k.Passes files' removed' := by
  cases k with
  | loaded t activeSeq => trivial
  | scanned t activeSeq maxIds activeAtScan => exact fun q m hm => hfiles q (h q m hm)
  | removing t toDelete rest deleted =>
    obtain ⟨gone, heq, hgone, hrest⟩ := h
    exact ⟨gone, heq, fun q hq => hremoved q (hgone q hq), fun q hq => hfiles q (hrest q hq)⟩
  | done result => trivial

theorem LooseInv.setCompactor (h : LooseInv crc origin c full L) (i : Nat) {k : Compactor}
    (hk : k.Passes c.log.dir.seqs c.removedSeqs) :
    LooseInv crc origin (c.setCompactor i k) full L := by
  refine ⟨h.inv, h.kept, h.entered, h.files, fun x hx => ?_⟩
  rcases List.mem_or_eq_of_mem_set hx with hx | rfl
  · exact h.compactors x hx
  · exact hk

theorem Action.mem_indexed {s : State} {e : Nat × RecordLocation} (h : e ∈ a.indexed s) :
    e ∈ s.pc.unindexed.2 := by
  cases a with
  | indexBatch elapsed => exact h
  | _ => cases h

/-- Steps of the log: the index gains the same entries with and without pruning. -/
theorem LooseInv.log (h : LooseInv crc origin c full L) {log' : State}
    (hs : step crc c.log a = some log') :
    ∃ L', LooseInv crc origin { c with log := log' } (insertAll full (a.indexed c.log)) L' ∧
      L.Grows L' := by
  have hindex := step_index hs
  obtain ⟨L', hi, hg⟩ := h.inv.step_grows rfl (step_withIndex hs full)
  have hseqs : ∀ q ∈ c.log.dir.seqs, q ∈ log'.dir.seqs := fun q hq => step_mem_seqs hs hq
  refine ⟨L', ⟨hi, ?_, ?_, ?_, fun k hk => (h.compactors k hk).mono hseqs fun _ hq => hq⟩, hg⟩
  · intro id loc hlook hnot
    show log'.index.lookup id = some loc
    rw [hindex]
    exact lookup_insertAll_mono (fun hold => h.kept id loc hold hnot) hlook
  · intro id loc hlook
    replace hlook : log'.index.lookup id = some loc := hlook
    rw [hindex] at hlook
    exact lookup_insertAll_mono (h.entered id loc) hlook
  · intro id loc hlook
    replace hlook : log'.index.lookup id = some loc := hlook
    rw [hindex] at hlook
    refine hseqs _ ?_
    rcases mem_of_lookup_insertAll hlook with hmem | hold
    · -- what is added lies in the active segment
      have hseq : loc.segmentSeq = L.active.seq :=
        (h.inv.index.offsets _ (Action.mem_indexed hmem)).1
      rw [hseq]
      exact h.inv.seq_mem_files L.active_mem
    · exact h.files id loc hold

/-- What a call chooses are files. -/
theorem Compacting.mem_files_of_chosen {t activeSeq : Nat} {maxIds : MaxIds}
    (hk : ∀ q m, maxIds.lookup q = some m → q ∈ c.log.dir.seqs) :
    ∀ q ∈ segmentsToDelete t activeSeq maxIds c.listSegmentSeqs, q ∈ c.log.dir.seqs := by
  intro q hq
  obtain ⟨-, ⟨m, hm, -⟩ | ⟨hlisted, -⟩⟩ := mem_segmentsToDelete.mp hq
  · exact hk q m hm
  · exact (Compacting.mem_listSegmentSeqs.mp hlisted).1

/-- Steps of the calls. -/
theorem LooseInv.call (h : LooseInv crc origin c full L) {a : CompactAction}
    (hcall : a.isLog = false) (hs : c.step crc a = some c') : LooseInv crc origin c' full L := by
  cases Compacting.callStep hcall hs with
  | started t =>
    exact ⟨h.inv, h.kept, h.entered, h.files, forall_mem_concat h.compactors trivial⟩
  | @scanned i t activeSeq hk =>
    refine h.setCompactor i fun q m hm => ?_
    obtain ⟨loc, hlook, rfl⟩ := lookup_of_maxIdPerSegment hm
    exact h.files m loc hlook
  | @notListed i t activeSeq activeAtScan maxIds hk reason => exact h.setCompactor i trivial
  | @listed i t activeSeq activeAtScan maxIds hk =>
    have hscanned := h.compactors _ (List.mem_of_getElem? hk)
    exact h.setCompactor i ⟨[], rfl, List.forall_mem_nil _, c.mem_files_of_chosen hscanned⟩
  | @notRemoved i t seq deleted toDelete rest hk hlisted reason => exact h.setCompactor i trivial
  | @removed i t seq deleted toDelete rest hk hlisted =>
    obtain ⟨gone, heq, hgone, hrest⟩ := h.compactors _ (List.mem_of_getElem? hk)
    have hsub : ∀ q ∈ c.removedSeqs, q ∈ (c.removed ++ [(seq, t)]).map Prod.fst :=
      fun q hq => Compacting.mem_removedSeqs_concat.mpr (.inl hq)
    refine ⟨h.inv, fun id loc hlook hout => h.kept id loc hlook fun hin => hout (hsub _ hin),
      h.entered, h.files, fun k hk => ?_⟩
    rcases List.mem_or_eq_of_mem_set hk with hk | rfl
    · exact (h.compactors k hk).mono (fun _ hq => hq) hsub
    · refine ⟨gone ++ [seq], by simp [heq], fun q hq => ?_,
        fun q hq => hrest q (List.mem_cons_of_mem _ hq)⟩
      refine Compacting.mem_removedSeqs_concat.mpr ?_
      exact (List.mem_append.mp hq).imp (hgone q) List.mem_singleton.mp
  | @passedOver i t seq deleted toDelete rest hk hgone' result =>
    obtain ⟨gone, heq, hgone, hrest⟩ := h.compactors _ (List.mem_of_getElem? hk)
    -- it is a file, so that it is not listed says that it is removed
    have hremoved : seq ∈ c.removedSeqs := by
      by_contra hnot
      exact hgone' (Compacting.mem_listSegmentSeqs.mpr ⟨hrest seq List.mem_cons_self, hnot⟩)
    exact h.setCompactor i ⟨gone ++ [seq], by simp [heq], forall_mem_concat hgone hremoved,
      fun q hq => hrest q (List.mem_cons_of_mem _ hq)⟩
  | @pruned i t deleted toDelete hk =>
    obtain ⟨gone, heq, hgone, -⟩ := h.compactors _ (List.mem_of_getElem? hk)
    rw [List.append_nil] at heq
    subst heq
    have hset := h.setCompactor i (k := .done (.ok deleted)) trivial
    refine ⟨{ h.inv with }, ?_, ?_, ?_, hset.compactors⟩
    · intro id loc hlook hnot
      exact lookup_pruned.mpr ⟨h.kept id loc hlook hnot, fun _ hmem => hnot (hgone _ hmem)⟩
    · intro id loc hlook
      exact h.entered id loc (lookup_pruned.mp hlook).1
    · intro id loc hlook
      exact h.files id loc (lookup_pruned.mp hlook).1

theorem LooseInv.step (h : LooseInv crc origin c full L) {a : CompactAction}
    (hs : c.step crc a = some c') :
    ∃ full' L', LooseInv crc origin c' full' L' ∧ L.Grows L' := by
  cases hlog : a.isLog with
  | false => exact ⟨full, L, h.call hlog hs, .refl L⟩
  | true =>
    cases a with
    | log a =>
      obtain ⟨log', hstep, rfl⟩ := Option.map_eq_some_iff.mp hs
      exact ⟨_, h.log hstep⟩
    | compactBelow | scanIndex | listDir | removeNext | prune => cases hlog

end Loose

/-! ## The invariant of settled runs -/

/-- Removing segment `q` for threshold `t` loses nothing. -/
structure Layout.Safe (L : Layout) (q t : Nat) : Prop where
  closed : q < L.active.seq
  below : ∀ seg ∈ L.segs, seg.seq = q → ∀ r ∈ seg.records, r.id ≤ t

/-- What a call of `compact_below` can rely on at each point. -/
def CompactorOk (L : Layout) (removed : List Nat) : Compactor → Prop
  | .loaded _ activeSeq => activeSeq ≤ L.active.seq
  | .scanned _ activeSeq maxIds activeAtScan =>
    activeSeq ≤ activeAtScan ∧ activeAtScan ≤ L.active.seq ∧
      ∀ seg ∈ L.segs, seg.seq < activeAtScan → seg.seq ∉ removed → ∀ r ∈ seg.records,
        ∃ m, maxIds.lookup seg.seq = some m ∧ r.id ≤ m
  | .removing safeThreshold _ rest _ => ∀ q ∈ rest, q ∈ removed ∨ L.Safe q safeThreshold
  | .done _ => True

structure CompactInv (crc : Bytes → UInt32) (origin : Origin) (c : Compacting) (full : Index)
    (L : Layout) : Prop extends LooseInv crc origin c full L where
  removed : ∀ p ∈ c.removed, L.Safe p.1 p.2
  calls : ∀ k ∈ c.compactors, CompactorOk L c.removedSeqs k

/-- **The condition on listings.** A segment that is listed and newer than the
one loaded as active was closed when the index was scanned, or had an
indexed record above the threshold by then. Without a roll between the
load and the listing there is no such segment. -/
def ListsSettled (c : Compacting) : CompactAction → Prop
  | .listDir i _ => ∀ safeThreshold activeSeq maxIds activeAtScan,
    c.compactors[i]? = some (.scanned safeThreshold activeSeq maxIds activeAtScan) →
    ∀ seq ∈ c.listSegmentSeqs, activeSeq < seq →
      seq < activeAtScan ∨ ∃ m, maxIds.lookup seq = some m ∧ safeThreshold < m
  | _ => True

instance (c : Compacting) : ∀ a, Decidable (ListsSettled c a)
  | .listDir i _ =>
    match h : c.compactors[i]? with
    | some (.scanned safeThreshold activeSeq maxIds activeAtScan) =>
      decidable_of_iff (∀ seq ∈ c.listSegmentSeqs, activeSeq < seq →
          seq < activeAtScan ∨ ∃ m ∈ maxIds.lookup seq, safeThreshold < m)
        ⟨fun hall _ _ _ _ hk => by cases h.symm.trans hk; exact hall, fun hall => hall _ _ _ _ h⟩
    | none | some (.loaded ..) | some (.removing ..) | some (.done _) =>
      isTrue fun _ _ _ _ hk => by cases h.symm.trans hk
  | .log _ | .compactBelow _ | .scanIndex _ | .removeNext _ _ | .prune _ => isTrue trivial

section Safety

variable {crc : Bytes → UInt32} {origin : Origin} {c c' : Compacting} {full : Index}
  {L L' : Layout}

theorem Layout.Safe.mono {q t : Nat} (h : L.Safe q t) (hg : L.Grows L') : L'.Safe q t :=
  ⟨Nat.lt_of_lt_of_le h.closed hg.active_le, fun seg hseg hseq r hr =>
    h.below seg (hg.closed seg hseg (hseq ▸ h.closed)) hseq r hr⟩

theorem CompactorOk.mono {removed removed' : List Nat} {k : Compactor}
    (h : CompactorOk L removed k) (hg : L.Grows L') (hsub : ∀ q ∈ removed, q ∈ removed') :
    CompactorOk L' removed' k := by
  cases k with
  | loaded t activeSeq => exact Nat.le_trans h hg.active_le
  | scanned t activeSeq maxIds activeAtScan =>
    obtain ⟨hle, hactive, hmax⟩ := h
    refine ⟨hle, Nat.le_trans hactive hg.active_le, fun seg hseg hlt hnot => ?_⟩
    exact hmax seg (hg.closed seg hseg (Nat.lt_of_lt_of_le hlt hactive)) hlt
      fun hmem => hnot (hsub _ hmem)
  | removing t toDelete rest deleted =>
    exact fun q hq => (h q hq).imp (hsub q) fun hsafe => hsafe.mono hg
  | done result => trivial

theorem CompactInv.log (h : CompactInv crc origin c full L) {a : Action} {log' : State}
    (hs : step crc c.log a = some log') :
    ∃ L', CompactInv crc origin { c with log := log' } (insertAll full (a.indexed c.log)) L' := by
  obtain ⟨L', hloose, hg⟩ := h.toLooseInv.log hs
  exact ⟨L', hloose, fun p hp => (h.removed p hp).mono hg,
    fun k hk => (h.calls k hk).mono hg fun _ hq => hq⟩

/-- The scan finds every record of the segments closed by now that are there. -/
theorem CompactInv.scanned (h : CompactInv crc origin c full L)
    (hnd : (L.records.map WalRecord.id).Nodup) (t : Nat) {activeSeq : Nat}
    (hloaded : activeSeq ≤ L.active.seq) : CompactorOk L c.removedSeqs
      (.scanned t activeSeq (maxIdPerSegment c.log.index) c.log.currentSegmentSeq) := by
  have hactive : c.log.currentSegmentSeq = L.active.seq := h.inv.disk.currentSeq
  refine ⟨by rw [hactive]; exact hloaded, Nat.le_of_eq hactive, fun seg hseg hlt hnot r hr => ?_⟩
  rw [hactive] at hlt
  obtain ⟨o, ho⟩ := h.inv.lookup_closed hnd hseg hlt hr
  exact le_maxIdPerSegment (h.kept _ _ ho hnot)

/-- A file below the active segment is a segment of the layout. -/
theorem CompactInv.seg_of_file (h : CompactInv crc origin c full L) {seq : Nat} {f : SegFile}
    (hmem : (seq, f) ∈ c.log.dir.files) (hlt : seq < L.active.seq) :
    ∃ seg ∈ L.segs, seg.file crc = (seq, f) := by
  have hfiles : c.log.dir.files = L.files crc := h.inv.disk.files
  rw [hfiles, Layout.files] at hmem
  rcases List.mem_append.mp hmem with hseg | hstray
  · exact List.mem_map.mp hseg
  · -- a half-made segment comes behind the active one
    rcases StrayOk.cases h.inv.disk.stray with hnil | ⟨n, hone⟩
    · rw [hnil] at hstray
      cases hstray
    · rw [hone] at hstray
      have hseq : seq = L.active.seq + 1 := congrArg Prod.fst (List.mem_singleton.mp hstray)
      omega

/-- **What a call chooses is safe to remove**, or gone already. -/
theorem CompactorOk.chosen {t activeSeq activeAtScan : Nat} {maxIds : MaxIds}
    (hk : CompactorOk L c.removedSeqs (.scanned t activeSeq maxIds activeAtScan))
    (hfiles : ∀ q m, maxIds.lookup q = some m → q ∈ c.log.dir.seqs)
    (hsettled : ∀ seq ∈ c.listSegmentSeqs, activeSeq < seq →
      seq < activeAtScan ∨ ∃ m, maxIds.lookup seq = some m ∧ t < m) {q : Nat}
    (hq : q ∈ segmentsToDelete t activeSeq maxIds c.listSegmentSeqs) :
    q ∈ c.removedSeqs ∨ L.Safe q t := by
  obtain ⟨hle, hactive, hmax⟩ := hk
  obtain ⟨hne, hchosen⟩ := mem_segmentsToDelete.mp hq
  by_cases hgone : q ∈ c.removedSeqs
  · exact .inl hgone
  refine .inr ?_
  have hlisted : q ∈ c.listSegmentSeqs := by
    rcases hchosen with ⟨m, hm, -⟩ | ⟨hlisted, -⟩
    · exact Compacting.mem_listSegmentSeqs.mpr ⟨hfiles q m hm, hgone⟩
    · exact hlisted
  have hclosed : q < activeAtScan := by
    rcases Nat.lt_trichotomy q activeSeq with hlt | heq | hgt
    · exact Nat.lt_of_lt_of_le hlt hle
    · exact absurd heq hne
    · rcases hsettled q hlisted hgt with hlt | ⟨m, hm, hgt⟩
      · exact hlt
      · rcases hchosen with ⟨m', hm', hle'⟩ | ⟨-, hnone⟩
        · rw [hm, Option.some.injEq] at hm'
          omega
        · rw [hm] at hnone
          cases hnone
  refine ⟨Nat.lt_of_lt_of_le hclosed hactive, ?_⟩
  rintro seg hseg rfl r hr
  obtain ⟨m, hm, hrm⟩ := hmax seg hseg hclosed hgone r hr
  rcases hchosen with ⟨m', hm', hle'⟩ | ⟨-, hnone⟩
  · rw [hm, Option.some.injEq] at hm'
    omega
  · rw [hm] at hnone
    cases hnone

variable {front : List StoredSegment} {last : StoredSegment} {a : CompactAction}

/-- Steps of the calls leave the layout as it is. -/
theorem CompactInv.call (h : CompactInv crc origin c full L)
    (hnd : (L.records.map WalRecord.id).Nodup) (hcall : a.isLog = false)
    (hsettled : ListsSettled c a) (hs : c.step crc a = some c') :
    CompactInv crc origin c' full L := by
  suffices (∀ p ∈ c'.removed, L.Safe p.1 p.2) ∧
      ∀ k ∈ c'.compactors, CompactorOk L c'.removedSeqs k from
    ⟨h.toLooseInv.call hcall hs, this.1, this.2⟩
  have hset (i : Nat) {k : Compactor} (hk : CompactorOk L c.removedSeqs k) :
      ∀ x ∈ c.compactors.set i k, CompactorOk L c.removedSeqs x := by
    intro x hx
    rcases List.mem_or_eq_of_mem_set hx with hx | rfl
    · exact h.calls x hx
    · exact hk
  cases Compacting.callStep hcall hs with
  | started t =>
    exact ⟨h.removed, forall_mem_concat h.calls (Nat.le_of_eq h.inv.disk.currentSeq)⟩
  | @scanned i t activeSeq hk =>
    exact ⟨h.removed, hset i (h.scanned hnd t (h.calls _ (List.mem_of_getElem? hk)))⟩
  | notListed | notRemoved | pruned => exact ⟨h.removed, hset _ trivial⟩
  | @listed i t activeSeq activeAtScan maxIds hk =>
    have hmem := List.mem_of_getElem? hk
    exact ⟨h.removed, hset i fun q hq =>
      (h.calls _ hmem).chosen (h.compactors _ hmem) (hsettled _ _ _ _ hk) hq⟩
  | @removed i t q deleted toDelete rest hk hlisted =>
    have hrest := h.calls _ (List.mem_of_getElem? hk)
    have hnot : q ∉ c.removedSeqs := (Compacting.mem_listSegmentSeqs.mp hlisted).2
    have hsub : ∀ x ∈ c.removedSeqs, x ∈ (c.removed ++ [(q, t)]).map Prod.fst :=
      fun x hx => Compacting.mem_removedSeqs_concat.mpr (.inl hx)
    refine ⟨?_, fun k hk => ?_⟩
    · exact forall_mem_concat h.removed ((hrest q List.mem_cons_self).resolve_left hnot)
    · exact (hset i (k := .removing t toDelete rest (deleted + 1))
        (fun x hx => hrest x (List.mem_cons_of_mem _ hx)) k hk).mono (.refl L) hsub
  | @passedOver i t q deleted toDelete rest hk =>
    have hrest := h.calls _ (List.mem_of_getElem? hk)
    exact ⟨h.removed, hset i fun x hx => hrest x (List.mem_cons_of_mem _ hx)⟩

/-- **Every step that lists settled segments keeps the invariant.** -/
theorem CompactInv.step (h : CompactInv crc origin c full L)
    (hnd : (L.records.map WalRecord.id).Nodup) (hsettled : ListsSettled c a)
    (hs : c.step crc a = some c') : ∃ full' L', CompactInv crc origin c' full' L' := by
  cases hlog : a.isLog with
  | false => exact ⟨full, L, h.call hnd hlog hsettled hs⟩
  | true =>
    cases a with
    | log a =>
      obtain ⟨log', hstep, rfl⟩ := Option.map_eq_some_iff.mp hs
      exact ⟨_, h.log hstep⟩
    | compactBelow | scanIndex | listDir | removeNext | prune => cases hlog

theorem Compacting.step_taken_le (hs : c.step crc a = some c') : c.log.taken ≤ c'.log.taken := by
  cases hlog : a.isLog with
  | false => cases Compacting.callStep hlog hs <;> exact Nat.le_refl _
  | true =>
    cases a with
    | log a =>
      obtain ⟨log', hlog, rfl⟩ := Option.map_eq_some_iff.mp hs
      exact step_taken_le hlog
    | compactBelow | scanIndex | listDir | removeNext | prune => cases hlog

theorem Inv.nodup_layout {Base : Bytes → Prop} {s : State} (h : Inv crc origin Base s L)
    (hold : (origin.records.map WalRecord.id).Nodup)
    (hlt : ∀ r ∈ origin.records, r.id < origin.nextId)
    (hids : origin.nextId + s.taken ≤ 2 ^ 64) : (L.records.map WalRecord.id).Nodup :=
  (h.nodup_ids hold hlt hids).sublist (h.log.torn.isPrefix.sublist.map _)

variable {synced : Nat → Nat} {o : Opened}

/-- On a clean log no id is given to two records. -/
theorem CleanLog.nodup_layout {Base : Bytes → Prop} {config : WalConfig} {dir : Dir Bytes}
    {segs : List StoredSegment} {s : State} (hclean : CleanLog crc dir segs)
    (hopen : openWithConfig crc config (.directory dir) = .ok o)
    {hlog : StoredLog crc o front last}
    (hrecords : allRecords (front ++ [last]) = allRecords segs)
    (h : Inv crc (hlog.origin synced) Base s L) (hids : o.nextId + s.taken ≤ 2 ^ 64) :
    (L.records.map WalRecord.id).Nodup := by
  have hold : (hlog.origin synced).records = allRecords segs := hrecords
  refine h.nodup_layout (hold ▸ hclean.nodup) ?_ hids
  rw [hold]
  exact hclean.id_lt_nextId hopen

/-- Starting on stored segments, with nothing removed. -/
theorem StoredLog.start_compactInv (h : StoredLog crc o front last) (hnext : o.nextId < 2 ^ 64)
    (config : WalConfig) (synced : Nat → Nat) :
    CompactInv crc (h.origin synced) (Compacting.start o config synced) o.index
      (storedLayout crc synced front last) := by
  refine ⟨⟨h.start_inv hnext config synced, fun _ _ hlook _ => hlook, fun _ _ hlook => hlook, ?_,
    List.forall_mem_nil _⟩, nofun, nofun⟩
  intro id loc hlook
  replace hlook : o.index.lookup id = some loc := hlook
  rw [h.index] at hlook
  have hmem := mem_of_lookup_insertAll_empty hlook
  obtain ⟨seg, hseg, -, -, hseq, -⟩ := mem_allEntries.mp hmem
  have hmem : seg.toSeg crc synced ∈ (storedLayout crc synced front last).segs := by
    rw [storedLayout_segs]
    exact List.mem_map_of_mem hseg
  exact hseq ▸ (h.start_inv hnext config synced).seq_mem_files hmem

/-- The records a scan of the file finds. -/
def recordsFound (crc : Bytes → UInt32) (file : Bytes) : List WalRecord :=
  match scanRecords crc (file.drop headerLen) headerLen with
  | .error _ => []
  | .ok (found, _) => found.map Prod.fst

theorem recordsFound_encodeRecords {rs : List WalRecord} (h : ∀ r ∈ rs, r.Fits) :
    recordsFound crc (segmentHeader ++ encodeRecords crc rs) = rs := by
  have hrest : readNextRecordWithOffset crc [] (headerLen + sizeAll rs) = .ok none :=
    readNext_short (by decide) _
  have hscan := scanRecords_encodeRecords h hrest
  rw [List.append_nil] at hscan
  rw [recordsFound, ← segmentHeader_length, List.drop_left, segmentHeader_length, hscan]
  exact located_map_fst headerLen rs

/-- The invariant of a clean log, as long as its ids do not wrap. -/
theorem CleanLog.step_compactInv {config : WalConfig} {dir : Dir Bytes}
    {segs : List StoredSegment} (hclean : CleanLog crc dir segs)
    (hopen : openWithConfig crc config (.directory dir) = .ok o)
    {hlog : StoredLog crc o front last}
    (hrecords : allRecords (front ++ [last]) = allRecords segs)
    (h : o.nextId + c.log.taken ≤ 2 ^ 64 →
      ∃ full L, CompactInv crc (hlog.origin synced) c full L) (hsettled : ListsSettled c a)
    (hs : c.step crc a = some c') :
    o.nextId + c'.log.taken ≤ 2 ^ 64 →
      ∃ full L, CompactInv crc (hlog.origin synced) c' full L := by
  intro hle
  have htaken := Compacting.step_taken_le hs
  obtain ⟨full, L, h⟩ := h (by omega)
  exact h.step (hclean.nodup_layout hopen hrecords h.inv
    (Nat.le_trans (Nat.add_le_add_left htaken _) hle)) hsettled hs

/-- A removed file is a closed segment: its records and nothing behind them. -/
theorem CompactInv.removed_file {hlog : StoredLog crc o front last}
    (hwhole : ∀ seg ∈ front ++ [last], seg.rest = [])
    (h : CompactInv crc (hlog.origin synced) c full L) {p : Nat × Nat} (hp : p ∈ c.removed) :
    p.1 ≠ c.log.currentSegmentSeq ∧
      ∀ f, c.log.dir.find? p.1 = some f → ∀ r ∈ recordsFound crc f.bytes, r.id ≤ p.2 := by
  have hsafe := h.removed p hp
  have hactive : c.log.currentSegmentSeq = L.active.seq := h.inv.disk.currentSeq
  refine ⟨by rw [hactive]; exact Nat.ne_of_lt hsafe.closed, fun f hf => ?_⟩
  obtain ⟨seg, hseg, hfile⟩ := h.seg_of_file (Dir.find?_eq_some.mp hf) hsafe.closed
  obtain ⟨hseq, rfl⟩ := Prod.mk.inj hfile
  have hclosed : seg ∈ L.closed := by
    rcases Layout.mem_segs.mp hseg with hclosed | rfl
    · exact hclosed
    · exact absurd hseq (Nat.ne_of_gt hsafe.closed)
  have htail : seg.tail = [] :=
    (h.inv.disk.tails seg hclosed).trans (hlog.tail_nil hwhole h.inv hseg)
  have hfits : ∀ r ∈ seg.records, r.Fits := fun r hr =>
    h.inv.fits r (h.inv.log.torn.isPrefix.subset (List.mem_flatMap.mpr ⟨seg, hseg, hr⟩))
  have hfound : recordsFound crc (seg.bytes crc) = seg.records := by
    rw [Seg.bytes, h.inv.disk.base seg hseg, htail, List.append_nil]
    exact recordsFound_encodeRecords hfits
  rw [show (SegFile.mk (seg.bytes crc) seg.synced).bytes = seg.bytes crc from rfl, hfound]
  exact hsafe.below seg hseg hseq

/-- **The compactor never deletes live data**, in every run in which listings
are settled: no removed file is the writer's active segment, and none
holds a record above the threshold it was removed for, at the time or in
any later state. -/
theorem removed_not_live {config : WalConfig} {dir : Dir Bytes} {segs : List StoredSegment}
    {o : Opened} (hclean : CleanLog crc dir segs)
    (hopen : openWithConfig crc config (.directory dir) = .ok o) {synced : Nat → Nat}
    {as : List CompactAction}
    (hrun : run (Compacting.step crc) (Compacting.start o config synced) as = some c)
    (hsettled : Meets (Compacting.step crc) ListsSettled (Compacting.start o config synced) as)
    (hids : o.nextId + c.log.taken ≤ 2 ^ 64) :
    ∀ p ∈ c.removed, p.1 ≠ c.log.currentSegmentSeq ∧
      ∀ f, c.log.dir.find? p.1 = some f → ∀ r ∈ recordsFound crc f.bytes, r.id ≤ p.2 := by
  obtain ⟨front, last, hlog, hwhole, hrecords⟩ := hclean.opened hopen
  have hinv := run_invariant_of_meets
    (P := fun c => o.nextId + c.log.taken ≤ 2 ^ 64 →
      ∃ full L, CompactInv crc (hlog.origin synced) c full L)
    (fun c a c' h hcond hs => hclean.step_compactInv hopen hrecords h hcond hs)
    (fun _ => ⟨_, _, hlog.start_compactInv (openWithConfig_nextId_lt hopen) config synced⟩)
    hsettled hrun
  obtain ⟨full, L, h⟩ := hinv hids
  exact fun p hp => h.removed_file hwhole hp

/-- Two durable appends, the second in a new segment, and a call that has
scanned the index. -/
def quietRun : List CompactAction :=
  twoSegmentRun.map .log ++ [.compactBelow 1, .scanIndex 0]

/-- The call removes the first segment. -/
theorem removed_not_live_first_segment :
    ∃ c, run (Compacting.step Crc32.crc32)
        (Compacting.start freshLog tinyConfig fun _ => headerLen)
        (quietRun ++ [.listDir 0 .ok, .removeNext 0 .ok]) = some c ∧
      c.removed = [(1, 1)] ∧
      1 ≠ c.log.currentSegmentSeq ∧
      ∀ f, c.log.dir.find? 1 = some f → ∀ r ∈ recordsFound Crc32.crc32 f.bytes, r.id ≤ 1 := by
  obtain ⟨c, hc, hids, hremoved⟩ : ∃ c, run (Compacting.step Crc32.crc32)
      (Compacting.start freshLog tinyConfig fun _ => headerLen)
      (quietRun ++ [.listDir 0 .ok, .removeNext 0 .ok]) = some c ∧
        freshLog.nextId + c.log.taken ≤ 2 ^ 64 ∧ c.removed = [(1, 1)] := by decide +kernel
  have hsettled : Meets (Compacting.step Crc32.crc32) ListsSettled
      (Compacting.start freshLog tinyConfig fun _ => headerLen)
      (quietRun ++ [.listDir 0 .ok, .removeNext 0 .ok]) := by decide +kernel
  have h := removed_not_live (cleanLog_empty _) open_empty hc hsettled hids (1, 1)
    (by rw [hremoved]; simp)
  exact ⟨c, hc, hremoved, h⟩

/-- A call that loads the active segment before a roll and lists the directory
after it, and a durable append into the segment it removes. -/
def rolledRun : List CompactAction :=
  [.log (.buildRequest [7, 7, 7, 7, 7, 7, 7, 7] true), .log (.sendRequest 0), .log (.recv 0),
    .log (.writeBatch .ok), .log (.indexBatch 0), .log (.flushFile .ok), .compactBelow 0,
    .log (.buildRequest [9] true), .log (.sendRequest 0), .log (.recv 0), .log (.flushFile .ok),
    .log (.createSegment .ok), .log (.writeHeader .ok), .log (.syncHeader .ok), .scanIndex 0,
    .listDir 0 .ok, .removeNext 0 .ok, .log (.writeBatch .ok), .log (.indexBatch 0),
    .log (.flushFile .ok)]

/-- The writer's active segment is removed, and the record appended to it is
acknowledged as durable. -/
theorem compactor_removes_active_segment :
    ∃ c, run (Compacting.step Crc32.crc32)
        (Compacting.start freshLog tinyConfig fun _ => headerLen) rolledRun = some c ∧
      c.removed = [(2, 0)] ∧ c.log.currentSegmentSeq = 2 ∧ c.listSegmentSeqs = [1] ∧
      (⟨⟨2, [9]⟩, true⟩, .ok ()) ∈ c.log.answers ∧
      ∃ f, c.log.dir.find? 2 = some f ∧ recordsFound Crc32.crc32 f.bytes = [⟨2, [9]⟩] := by
  decide +kernel

end Safety

end BlipMQ.Wal
