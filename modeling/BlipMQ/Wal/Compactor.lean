import Mathlib.Data.List.Dedup
import Mathlib.Data.List.Sort
import BlipMQ.Lib.Maps
import BlipMQ.Wal.Writer

/-!
# WAL — the compactor

`compact_below` holds no lock across its steps: it loads the number of the
active segment, scans the index, lists the directory, removes the chosen
files one by one, and prunes the index. Any number of calls run beside
each other and beside the appenders and the writer task.
-/

namespace BlipMQ.Wal

/-! ## Choosing the segments -/

/-- The highest indexed id of each segment. -/
abbrev MaxIds := AList fun _ : Nat => Nat

/-- One index entry enters `max_id_per_segment`. -/
def addMaxId (maxIds : MaxIds) (seq id : Nat) : MaxIds :=
  maxIds.insert seq (max ((maxIds.lookup seq).getD 0) id)

def addMaxIds (maxIds : MaxIds) (es : List (Sigma fun _ : Nat => RecordLocation)) : MaxIds :=
  es.foldl (fun maxIds e => addMaxId maxIds e.2.segmentSeq e.1) maxIds

def maxIdPerSegment (index : Index) : MaxIds := addMaxIds ∅ index.entries

/-- `to_delete`: segments with all indexed ids up to the threshold, and
listed segments without any index entry; never the one loaded as active. -/
def segmentsToDelete (safeThreshold activeSeq : Nat) (maxIds : MaxIds) (listed : List Nat) :
    List Nat :=
  let old := (maxIds.entries.filter fun e => e.1 ≠ activeSeq && e.2 ≤ safeThreshold).map Sigma.fst
  let stragglers := listed.filter fun seq => seq ≠ activeSeq && (maxIds.lookup seq).isNone
  ((old ++ stragglers).insertionSort (· ≤ ·)).dedup

/-- The index without the entries of deleted segments. -/
def pruneIndex (index : Index) (deleted : List Nat) : Index :=
  ⟨index.entries.filter fun e => e.2.segmentSeq ∉ deleted,
    index.nodupKeys.sublist List.filter_sublist⟩

/-! ## The steps -/

/-- Where a call of `compact_below` stands. `activeAtScan` is bookkeeping: the
active segment at the moment of the scan. -/
inductive Compactor where
  | loaded (safeThreshold activeSeq : Nat)
  | scanned (safeThreshold activeSeq : Nat) (maxIds : MaxIds) (activeAtScan : Nat)
  | removing (safeThreshold : Nat) (toDelete rest : List Nat) (deleted : Nat)
  | done (result : Except WalError Nat)

def Compactor.safeThreshold? : Compactor → Option Nat
  | .loaded safeThreshold _ | .scanned safeThreshold _ _ _ | .removing safeThreshold _ _ _ =>
    some safeThreshold
  | .done _ => none

/-- The log with its compactors. The files of `log.dir` are there whether or
not they still have a name: a writer whose file was removed goes on
writing to it. `removed` are the files without a name, each with the
threshold of the call that removed it. -/
structure Compacting where
  log : State
  removed : List (Nat × Nat)
  compactors : List Compactor

inductive CompactAction where
  /-- A step of the appenders or the writer task. -/
  | log (a : Action)
  /-- A call starts and loads `active_segment_seq`. -/
  | compactBelow (safeThreshold : Nat)
  | scanIndex (i : Nat)
  | listDir (i : Nat) (result : IoResult)
  | removeNext (i : Nat) (result : IoResult)
  | prune (i : Nat)
  deriving DecidableEq, Repr

/-- Is it a step of the log, not of a call? -/
def CompactAction.isLog : CompactAction → Bool
  | .log _ => true
  | _ => false

namespace Compacting

def start (o : Opened) (config : WalConfig) (synced : Nat → Nat) : Compacting :=
  ⟨o.start config synced, [], []⟩

def removedSeqs (c : Compacting) : List Nat := c.removed.map Prod.fst

/-- `list_segment_seqs`: the numbers of the files that have a name. -/
def listSegmentSeqs (c : Compacting) : List Nat :=
  c.log.dir.seqs.filter fun seq => seq ∉ c.removedSeqs

/-- What a reader of the directory finds under the names that are left. -/
def contents (c : Compacting) : Dir Bytes :=
  c.log.contents.filter fun seq => seq ∉ c.removedSeqs

/-- The thresholds of the calls that are under way and of the removals. -/
def thresholds (c : Compacting) : List Nat :=
  c.compactors.filterMap Compactor.safeThreshold? ++ c.removed.map Prod.snd

def setCompactor (c : Compacting) (i : Nat) (k : Compactor) : Compacting :=
  { c with compactors := c.compactors.set i k }

def stepScan (c : Compacting) (i : Nat) : Option Compacting :=
  match c.compactors[i]? with
  | some (.loaded safeThreshold activeSeq) =>
    some (c.setCompactor i (.scanned safeThreshold activeSeq (maxIdPerSegment c.log.index)
      c.log.currentSegmentSeq))
  | _ => none

def stepList (c : Compacting) (i : Nat) (result : IoResult) : Option Compacting :=
  match c.compactors[i]? with
  | some (.scanned safeThreshold activeSeq maxIds _) =>
    match result with
    | .failed reason => some (c.setCompactor i (.done (.error (.io reason))))
    | .ok =>
      -- the log may have rolled since the active number and the index were read
      let toDelete := segmentsToDelete safeThreshold activeSeq maxIds c.listSegmentSeqs
      some (c.setCompactor i (.removing safeThreshold toDelete toDelete 0))
  | _ => none

/-- `remove_file` of the next chosen segment; one that is gone is passed over. -/
def stepRemove (c : Compacting) (i : Nat) (result : IoResult) : Option Compacting :=
  match c.compactors[i]? with
  | some (.removing safeThreshold toDelete (seq :: rest) deleted) =>
    if seq ∈ c.listSegmentSeqs then
      match result with
      | .failed reason => some (c.setCompactor i (.done (.error (.io reason))))
      | .ok => some { c.setCompactor i (.removing safeThreshold toDelete rest (deleted + 1)) with
          removed := c.removed ++ [(seq, safeThreshold)] }
    else some (c.setCompactor i (.removing safeThreshold toDelete rest deleted))
  | _ => none

def stepPrune (c : Compacting) (i : Nat) : Option Compacting :=
  match c.compactors[i]? with
  | some (.removing _ toDelete [] deleted) =>
    -- all that was chosen is pruned, also what another call has removed
    let index := if 0 < deleted then pruneIndex c.log.index toDelete else c.log.index
    some { c.setCompactor i (.done (.ok deleted)) with log := { c.log with index := index } }
  | _ => none

def step (crc : Bytes → UInt32) (c : Compacting) : CompactAction → Option Compacting
  | .log a => (Wal.step crc c.log a).map fun log => { c with log := log }
  | .compactBelow safeThreshold =>
    some { c with
      compactors := c.compactors ++ [.loaded safeThreshold c.log.currentSegmentSeq] }
  | .scanIndex i => c.stepScan i
  | .listDir i result => c.stepList i result
  | .removeNext i result => c.stepRemove i result
  | .prune i => c.stepPrune i

end Compacting

/-- What a step of a call can do, with where the call stood before. -/
inductive CallStep (c : Compacting) : CompactAction → Compacting → Prop
  | started (t : Nat) : CallStep c (.compactBelow t)
      { c with compactors := c.compactors ++ [.loaded t c.log.currentSegmentSeq] }
  | scanned {i t activeSeq : Nat} (hk : c.compactors[i]? = some (.loaded t activeSeq)) :
      CallStep c (.scanIndex i) (c.setCompactor i
        (.scanned t activeSeq (maxIdPerSegment c.log.index) c.log.currentSegmentSeq))
  | notListed {i t activeSeq activeAtScan : Nat} {maxIds : MaxIds}
      (hk : c.compactors[i]? = some (.scanned t activeSeq maxIds activeAtScan))
      (reason : String) :
      CallStep c (.listDir i (.failed reason)) (c.setCompactor i (.done (.error (.io reason))))
  | listed {i t activeSeq activeAtScan : Nat} {maxIds : MaxIds}
      (hk : c.compactors[i]? = some (.scanned t activeSeq maxIds activeAtScan)) :
      CallStep c (.listDir i .ok) (c.setCompactor i (.removing t
        (segmentsToDelete t activeSeq maxIds c.listSegmentSeqs)
        (segmentsToDelete t activeSeq maxIds c.listSegmentSeqs) 0))
  | notRemoved {i t seq deleted : Nat} {toDelete rest : List Nat}
      (hk : c.compactors[i]? = some (.removing t toDelete (seq :: rest) deleted))
      (hlisted : seq ∈ c.listSegmentSeqs) (reason : String) :
      CallStep c (.removeNext i (.failed reason)) (c.setCompactor i (.done (.error (.io reason))))
  | removed {i t seq deleted : Nat} {toDelete rest : List Nat}
      (hk : c.compactors[i]? = some (.removing t toDelete (seq :: rest) deleted))
      (hlisted : seq ∈ c.listSegmentSeqs) :
      CallStep c (.removeNext i .ok)
        { c.setCompactor i (.removing t toDelete rest (deleted + 1)) with
          removed := c.removed ++ [(seq, t)] }
  | passedOver {i t seq deleted : Nat} {toDelete rest : List Nat}
      (hk : c.compactors[i]? = some (.removing t toDelete (seq :: rest) deleted))
      (hgone : seq ∉ c.listSegmentSeqs) (result : IoResult) :
      CallStep c (.removeNext i result) (c.setCompactor i (.removing t toDelete rest deleted))
  | pruned {i t deleted : Nat} {toDelete : List Nat}
      (hk : c.compactors[i]? = some (.removing t toDelete [] deleted)) :
      CallStep c (.prune i) { c.setCompactor i (.done (.ok deleted)) with
        log := { c.log with
          index := if 0 < deleted then pruneIndex c.log.index toDelete else c.log.index } }

variable {index : Index} {es : List (Nat × RecordLocation)} {c : Compacting}

theorem Compacting.callStep {crc : Bytes → UInt32} {c' : Compacting} {a : CompactAction}
    (hcall : a.isLog = false) (hs : c.step crc a = some c') : CallStep c a c' := by
  cases a with
  | log a => cases hcall
  | compactBelow t =>
    cases hs
    exact .started t
  | scanIndex i =>
    simp only [step, stepScan] at hs
    split at hs
    · rename_i hk
      cases hs
      exact .scanned hk
    · cases hs
  | listDir i result =>
    simp only [step, stepList] at hs
    split at hs
    · rename_i hk
      cases result with
      | failed reason =>
        cases hs
        exact .notListed hk reason
      | ok =>
        cases hs
        exact .listed hk
    · cases hs
  | removeNext i result =>
    simp only [step, stepRemove] at hs
    split at hs
    · rename_i hk
      split at hs
      · rename_i hlisted
        cases result with
        | failed reason =>
          cases hs
          exact .notRemoved hk hlisted reason
        | ok =>
          cases hs
          exact .removed hk hlisted
      · rename_i hgone
        cases hs
        exact .passedOver hk hgone result
    · cases hs
  | prune i =>
    simp only [step, stepPrune] at hs
    split at hs
    · rename_i hk
      cases hs
      exact .pruned hk
    · cases hs

theorem Compacting.mem_thresholds {t : Nat} :
    t ∈ c.thresholds ↔
      (∃ k ∈ c.compactors, k.safeThreshold? = some t) ∨ ∃ p ∈ c.removed, p.2 = t := by
  simp [thresholds]

theorem Compacting.mem_thresholds_set {i t : Nat} {k l : Compactor}
    (hk : c.compactors[i]? = some k) (ht : t ∈ (c.setCompactor i l).thresholds)
    (hsame : l.safeThreshold? = some t → k.safeThreshold? = some t) : t ∈ c.thresholds := by
  rcases mem_thresholds.mp ht with ⟨x, hx, hxt⟩ | hremoved
  · rcases List.mem_or_eq_of_mem_set hx with hx | rfl
    · exact mem_thresholds.mpr (.inl ⟨x, hx, hxt⟩)
    · exact mem_thresholds.mpr (.inl ⟨k, List.mem_of_getElem? hk, hsame hxt⟩)
  · exact mem_thresholds.mpr (.inr hremoved)

/-- A call removes for the threshold it was made with. -/
theorem CallStep.thresholds {c' : Compacting} {a : CompactAction} (h : CallStep c a c') {t : Nat}
    (ht : t ∈ c'.thresholds) : t ∈ c.thresholds ∨ a = .compactBelow t := by
  cases h with
  | started t' =>
    rcases Compacting.mem_thresholds.mp ht with ⟨x, hx, hxt⟩ | hremoved
    · rcases List.mem_append.mp hx with hx | hx
      · exact .inl (Compacting.mem_thresholds.mpr (.inl ⟨x, hx, hxt⟩))
      · rw [List.mem_singleton.mp hx] at hxt
        cases hxt
        exact .inr rfl
    · exact .inl (Compacting.mem_thresholds.mpr (.inr hremoved))
  | notListed hk _ | notRemoved hk _ _ => exact .inl (Compacting.mem_thresholds_set hk ht nofun)
  | scanned hk | listed hk | passedOver hk _ _ =>
    exact .inl (Compacting.mem_thresholds_set hk ht id)
  | pruned hk =>
    exact .inl (Compacting.mem_thresholds_set (l := .done (.ok _)) hk ht nofun)
  | @removed i t₀ seq deleted toDelete rest hk hlisted =>
    rcases Compacting.mem_thresholds.mp ht with hcall | ⟨p, hp, rfl⟩
    · exact .inl (Compacting.mem_thresholds_set hk (Compacting.mem_thresholds.mpr (.inl hcall)) id)
    · rcases List.mem_append.mp hp with hp | hp
      · exact .inl (Compacting.mem_thresholds.mpr (.inr ⟨p, hp, rfl⟩))
      · rw [List.mem_singleton.mp hp]
        exact .inl (Compacting.mem_thresholds.mpr (.inl ⟨_, List.mem_of_getElem? hk, rfl⟩))

/-! ## What the choice and the pruning do -/

section Names

variable {c : Compacting} {q : Nat}

theorem Compacting.mem_listSegmentSeqs :
    q ∈ c.listSegmentSeqs ↔ q ∈ c.log.dir.seqs ∧ q ∉ c.removedSeqs := by
  rw [listSegmentSeqs, List.mem_filter, decide_eq_true_eq]

theorem Compacting.mem_removedSeqs_concat {seq t : Nat} :
    q ∈ (c.removed ++ [(seq, t)]).map Prod.fst ↔ q ∈ c.removedSeqs ∨ q = seq := by
  rw [List.map_append, List.mem_append, List.map_singleton, List.mem_singleton]
  rfl

end Names

theorem maxIdPerSegment_eq (index : Index) : maxIdPerSegment index =
    MaxMap.raiseAll ∅ (index.entries.map fun e => (e.2.segmentSeq, e.1)) := by
  rw [MaxMap.raiseAll, List.foldl_map]
  rfl

variable {loc : RecordLocation} {id : Nat}

/-- An indexed id counts for its segment. -/
theorem le_maxIdPerSegment (h : index.lookup id = some loc) :
    ∃ m, (maxIdPerSegment index).lookup loc.segmentSeq = some m ∧ id ≤ m := by
  have hmem : (loc.segmentSeq, id) ∈ index.entries.map fun e => (e.2.segmentSeq, e.1) :=
    List.mem_map.mpr ⟨⟨id, loc⟩, AList.mem_lookup_iff.mp h, rfl⟩
  rw [maxIdPerSegment_eq]
  obtain ⟨m, hm⟩ := Option.isSome_iff_exists.mp
    (MaxMap.isSome_lookup_raiseAll.mpr (.inr ⟨_, hmem, rfl⟩))
  have hle := MaxMap.le_get_raiseAll ∅ hmem
  rw [MaxMap.get_of_lookup hm] at hle
  exact ⟨m, hm, hle⟩

/-- What the map has for a segment is an id indexed there. -/
theorem lookup_of_maxIdPerSegment {q m : Nat} (h : (maxIdPerSegment index).lookup q = some m) :
    ∃ loc, index.lookup m = some loc ∧ loc.segmentSeq = q := by
  rw [maxIdPerSegment_eq] at h
  rcases MaxMap.lookup_raiseAll_cases h with hnone | hmem
  · rw [AList.lookup_empty] at hnone
    cases hnone
  · obtain ⟨⟨id, loc⟩, he, heq⟩ := List.mem_map.mp hmem
    cases heq
    exact ⟨loc, AList.mem_lookup_iff.mpr he, rfl⟩

theorem mem_segmentsToDelete {safeThreshold activeSeq q : Nat} {maxIds : MaxIds}
    {listed : List Nat} :
    q ∈ segmentsToDelete safeThreshold activeSeq maxIds listed ↔
      q ≠ activeSeq ∧ ((∃ m, maxIds.lookup q = some m ∧ m ≤ safeThreshold) ∨
        q ∈ listed ∧ maxIds.lookup q = none) := by
  simp only [segmentsToDelete, List.mem_dedup, List.mem_insertionSort, List.mem_append,
    List.mem_map, List.mem_filter, Bool.and_eq_true, decide_eq_true_eq, Option.isNone_iff_eq_none]
  constructor
  · rintro (⟨⟨seq, m⟩, ⟨hmem, hne, hle⟩, rfl⟩ | ⟨hlisted, hne, hnone⟩)
    · exact ⟨hne, .inl ⟨m, AList.mem_lookup_iff.mpr hmem, hle⟩⟩
    · exact ⟨hne, .inr ⟨hlisted, hnone⟩⟩
  · rintro ⟨hne, ⟨m, hm, hle⟩ | ⟨hlisted, hnone⟩⟩
    · exact .inl ⟨⟨q, m⟩, ⟨AList.mem_lookup_iff.mp hm, hne, hle⟩, rfl⟩
    · exact .inr ⟨hlisted, hne, hnone⟩

theorem segmentsToDelete_sorted (safeThreshold activeSeq : Nat) (maxIds : MaxIds)
    (listed : List Nat) :
    (segmentsToDelete safeThreshold activeSeq maxIds listed).Pairwise (· < ·) := by
  unfold segmentsToDelete
  have hle := (List.pairwise_insertionSort (· ≤ ·) ((maxIds.entries.filter fun e =>
    e.1 ≠ activeSeq && e.2 ≤ safeThreshold).map Sigma.fst ++ listed.filter fun seq =>
      seq ≠ activeSeq && (maxIds.lookup seq).isNone)).sublist (List.dedup_sublist _)
  exact hle.imp₂ (fun _ _ hle hne => Nat.lt_of_le_of_ne hle hne) (List.nodup_dedup _)

theorem pruneIndex_eq_keep (index : Index) (deleted : List Nat) :
    pruneIndex index deleted = keep index fun _ loc => loc.segmentSeq ∉ deleted := rfl

theorem lookup_pruneIndex {deleted : List Nat} :
    (pruneIndex index deleted).lookup id = some loc ↔
      index.lookup id = some loc ∧ loc.segmentSeq ∉ deleted := by
  rw [pruneIndex_eq_keep, lookup_keep, Option.filter_eq_some_iff, decide_eq_true_eq]

/-- The index after a call: one that has removed nothing prunes nothing. -/
theorem lookup_pruned {toDelete : List Nat} {deleted : Nat} :
    (if 0 < deleted then pruneIndex index toDelete else index).lookup id = some loc ↔
      index.lookup id = some loc ∧ (0 < deleted → loc.segmentSeq ∉ toDelete) := by
  split
  · rename_i hpos
    rw [lookup_pruneIndex, forall_prop_of_true hpos]
  · rename_i hnone
    rw [forall_prop_of_false hnone, and_true]

theorem pruneIndex_nil (index : Index) : pruneIndex index [] = index :=
  keep_eq_self fun _ _ _ => rfl

/-- Pruning nothing needs no condition. -/
theorem pruned_length (index : Index) (deleted : List Nat) :
    (if 0 < deleted.length then pruneIndex index deleted else index) =
      pruneIndex index deleted := by
  cases deleted with
  | nil => exact (pruneIndex_nil _).symm
  | cons q deleted => rfl

theorem pruneIndex_pruneIndex (index : Index) (deleted deleted' : List Nat) :
    pruneIndex (pruneIndex index deleted) deleted' = pruneIndex index (deleted ++ deleted') := by
  rw [pruneIndex_eq_keep, pruneIndex_eq_keep, keep_keep, pruneIndex_eq_keep]
  refine keep_congr fun id loc _ => ?_
  rw [Bool.eq_iff_iff, Bool.and_eq_true, decide_eq_true_eq, decide_eq_true_eq, decide_eq_true_eq,
    List.mem_append, not_or]

/-- What is entered into other segments is not pruned. -/
theorem insertAll_pruneIndex {deleted : List Nat} (hnot : ∀ e ∈ es, e.2.segmentSeq ∉ deleted) :
    insertAll (pruneIndex index deleted) es = pruneIndex (insertAll index es) deleted := by
  induction es generalizing index with
  | nil => rfl
  | cons e es ih =>
    have hinsert : (pruneIndex index deleted).insert e.1 e.2 =
        pruneIndex (index.insert e.1 e.2) deleted := by
      rw [pruneIndex_eq_keep, insert_keep index (decide_eq_true (hnot e List.mem_cons_self)),
        pruneIndex_eq_keep]
    show insertAll ((pruneIndex index deleted).insert e.1 e.2) es = _
    rw [hinsert, ih fun x hx => hnot x (List.mem_cons_of_mem _ hx)]
    rfl

/-- Under new and different ids, the latest entry stands first. -/
theorem entries_insertAll (hnd : (es.map Prod.fst).Nodup) (hnew : ∀ e ∈ es, e.1 ∉ index) :
    (insertAll index es).entries =
      (es.map fun e => (⟨e.1, e.2⟩ : Sigma fun _ : Nat => RecordLocation)).reverse ++
        index.entries := by
  induction es generalizing index with
  | nil => rfl
  | cons e es ih =>
    rw [List.map_cons, List.nodup_cons] at hnd
    show (insertAll (index.insert e.1 e.2) es).entries = _
    rw [ih hnd.2, AList.entries_insert_of_notMem (hnew e (by simp))]
    · simp
    · intro x hx hmem
      rcases (AList.mem_insert _).mp hmem with heq | hmem
      · exact hnd.1 (heq ▸ List.mem_map_of_mem hx)
      · exact hnew x (by simp [hx]) hmem

/-- Pruning an index is not having entered the entries. -/
theorem pruneIndex_insertAll (hnd : (es.map Prod.fst).Nodup) (deleted : List Nat) :
    pruneIndex (insertAll ∅ es) deleted =
      insertAll ∅ (es.filter fun e => e.2.segmentSeq ∉ deleted) := by
  have hsub : ((es.filter fun e => e.2.segmentSeq ∉ deleted).map Prod.fst).Nodup :=
    hnd.sublist (List.filter_sublist.map _)
  refine AList.ext ?_
  show ((insertAll ∅ es).entries.filter fun e => e.2.segmentSeq ∉ deleted) = _
  rw [entries_insertAll hnd fun e _ => AList.notMem_empty _,
    entries_insertAll hsub fun e _ => AList.notMem_empty _]
  simp only [AList.empty_entries, List.append_nil, List.filter_reverse, List.filter_map]
  rfl

/-! ## A whole call of `compact_below` -/

/-- A call that nothing interrupts, as the `i`-th: load, scan, list, `n` removals
that succeed, prune. -/
def compactRun (i n safeThreshold : Nat) : List CompactAction :=
  [.compactBelow safeThreshold, .scanIndex i, .listDir i .ok] ++
    (List.replicate n (.removeNext i .ok) ++ [.prune i])

section Call

variable {crc : Bytes → UInt32} {c : Compacting}

/-- A call up to its choice. -/
theorem run_choose (crc : Bytes → UInt32) (c : Compacting) (t : Nat) :
    run (Compacting.step crc) c [.compactBelow t, .scanIndex c.compactors.length,
        .listDir c.compactors.length .ok] = some
      { c with compactors := c.compactors ++ [.removing t
          (segmentsToDelete t c.log.currentSegmentSeq (maxIdPerSegment c.log.index)
            c.listSegmentSeqs)
          (segmentsToDelete t c.log.currentSegmentSeq (maxIdPerSegment c.log.index)
            c.listSegmentSeqs) 0] } := by
  simp [run, Compacting.step, Compacting.stepScan, Compacting.stepList, Compacting.setCompactor]
  rfl

section Removing

variable {i t d q : Nat} {toDelete rest : List Nat}

/-- The next file is there and is removed. -/
theorem step_removeNext_listed (crc : Bytes → UInt32)
    (hk : c.compactors[i]? = some (.removing t toDelete (q :: rest) d))
    (hlisted : q ∈ c.listSegmentSeqs) :
    c.step crc (.removeNext i .ok) = some
      { c.setCompactor i (.removing t toDelete rest (d + 1)) with
        removed := c.removed ++ [(q, t)] } := by
  show c.stepRemove i .ok = _
  rw [Compacting.stepRemove, hk]
  exact if_pos hlisted

/-- The next file is gone already, and is passed over. -/
theorem step_removeNext_gone (crc : Bytes → UInt32)
    (hk : c.compactors[i]? = some (.removing t toDelete (q :: rest) d))
    (hgone : q ∉ c.listSegmentSeqs) :
    c.step crc (.removeNext i .ok) = some (c.setCompactor i (.removing t toDelete rest d)) := by
  show c.stepRemove i .ok = _
  rw [Compacting.stepRemove, hk]
  exact if_neg hgone

/-- The next file is there and cannot be removed. -/
theorem step_removeNext_failed (crc : Bytes → UInt32)
    (hk : c.compactors[i]? = some (.removing t toDelete (q :: rest) d))
    (hlisted : q ∈ c.listSegmentSeqs) (reason : String) :
    c.step crc (.removeNext i (.failed reason)) =
      some (c.setCompactor i (.done (.error (.io reason)))) := by
  show c.stepRemove i (.failed reason) = _
  rw [Compacting.stepRemove, hk]
  exact if_pos hlisted

theorem step_prune (crc : Bytes → UInt32)
    (hk : c.compactors[i]? = some (.removing t toDelete [] d)) :
    c.step crc (.prune i) = some { c.setCompactor i (.done (.ok d)) with
      log := { c.log with
        index := if 0 < d then pruneIndex c.log.index toDelete else c.log.index } } := by
  show c.stepPrune i = _
  rw [Compacting.stepPrune, hk]

/-- One file less. -/
theorem listSegmentSeqs_removed (c : Compacting) (ks : List Compactor) (q t : Nat) :
    Compacting.listSegmentSeqs { c with removed := c.removed ++ [(q, t)], compactors := ks } =
      c.listSegmentSeqs.filter (· ≠ q) := by
  unfold Compacting.listSegmentSeqs
  rw [List.filter_filter]
  refine List.filter_congr fun x _ => ?_
  rw [Bool.eq_iff_iff, Bool.and_eq_true, decide_eq_true_eq, decide_eq_true_eq, decide_eq_true_eq,
    ← not_or]
  exact not_congr (Compacting.mem_removedSeqs_concat.trans Or.comm)

/-- The files that are still to be removed are listed as before. -/
theorem mem_listSegmentSeqs_removed {x : Nat} (hq : q ∉ rest) (hx : x ∈ rest) :
    x ∈ c.listSegmentSeqs.filter (· ≠ q) ↔ x ∈ c.listSegmentSeqs := by
  have hne : x ≠ q := fun heq => hq (heq ▸ hx)
  rw [List.mem_filter, decide_eq_true_eq, and_iff_left hne]

end Removing

/-- The removals of a call, one after the other; what is not listed is passed over. -/
theorem run_removeNext {i t d : Nat} {toDelete rest : List Nat}
    (hk : c.compactors[i]? = some (.removing t toDelete rest d)) (hnd : rest.Nodup) :
    run (Compacting.step crc) c (List.replicate rest.length (.removeNext i .ok)) = some
      { c with
        removed := c.removed ++ (rest.filter (· ∈ c.listSegmentSeqs)).map fun q => (q, t)
        compactors := c.compactors.set i (.removing t toDelete []
          (d + (rest.filter (· ∈ c.listSegmentSeqs)).length)) } := by
  induction rest generalizing c d with
  | nil =>
    have hlt : i < c.compactors.length := (List.getElem?_eq_some_iff.mp hk).1
    have hset : c.compactors.set i (.removing t toDelete [] d) = c.compactors := by
      rw [List.getElem?_eq_getElem hlt, Option.some.injEq] at hk
      rw [← hk, List.set_getElem_self]
    simp [hset]
  | cons q rest ih =>
    have hlt : i < c.compactors.length := (List.getElem?_eq_some_iff.mp hk).1
    obtain ⟨hq, hnd⟩ := List.nodup_cons.mp hnd
    rw [List.length_cons, List.replicate_succ]
    by_cases hlisted : q ∈ c.listSegmentSeqs
    · have hstep := step_removeNext_listed crc hk hlisted
      have hrest : rest.filter (· ∈ Compacting.listSegmentSeqs
            { c.setCompactor i (.removing t toDelete rest (d + 1)) with
              removed := c.removed ++ [(q, t)] }) =
          rest.filter (· ∈ c.listSegmentSeqs) := by
        refine List.filter_congr fun x hx => decide_eq_decide.mpr ?_
        exact (listSegmentSeqs_removed c _ q t).symm ▸ mem_listSegmentSeqs_removed hq hx
      refine run_cons.mpr ⟨_, hstep, (@ih _ (d + 1) (List.getElem?_set_self hlt) hnd).trans ?_⟩
      rw [hrest, List.filter_cons_of_pos (by simpa using hlisted)]
      simp [Compacting.setCompactor, Nat.add_assoc, Nat.add_comm 1]
    · have hstep := step_removeNext_gone crc hk hlisted
      refine run_cons.mpr ⟨_, hstep, (@ih _ d (List.getElem?_set_self hlt) hnd).trans ?_⟩
      rw [List.filter_cons_of_neg (by simpa using hlisted)]
      simp only [Compacting.setCompactor, List.set_set]
      rfl

/-- A call that nothing interrupts removes what it has chosen and finds, and prunes the
index if it has found any. -/
theorem run_call (crc : Bytes → UInt32) {t : Nat} {del : List Nat}
    (hdel : segmentsToDelete t c.log.currentSegmentSeq (maxIdPerSegment c.log.index)
      c.listSegmentSeqs = del) :
    run (Compacting.step crc) c (compactRun c.compactors.length del.length t) = some
      { log := { c.log with
          index := if 0 < (del.filter (· ∈ c.listSegmentSeqs)).length then
              pruneIndex c.log.index del
            else c.log.index }
        removed := c.removed ++ (del.filter (· ∈ c.listSegmentSeqs)).map fun q => (q, t)
        compactors :=
          c.compactors ++ [.done (.ok (del.filter (· ∈ c.listSegmentSeqs)).length)] } := by
  have hnd : del.Nodup := hdel ▸ (segmentsToDelete_sorted ..).imp Nat.ne_of_lt
  have hchoose := run_choose crc c t
  rw [hdel] at hchoose
  have hk : (c.compactors ++ [Compactor.removing t del del 0])[c.compactors.length]? =
      some (.removing t del del 0) := List.getElem?_concat_length
  have hremove : run (Compacting.step crc)
      { c with compactors := c.compactors ++ [.removing t del del 0] }
      (List.replicate del.length (.removeNext c.compactors.length .ok)) = some { c with
        removed := c.removed ++ (del.filter (· ∈ c.listSegmentSeqs)).map fun q => (q, t)
        compactors := (c.compactors ++ [Compactor.removing t del del 0]).set c.compactors.length
          (.removing t del [] (0 + (del.filter (· ∈ c.listSegmentSeqs)).length)) } :=
    run_removeNext hk hnd
  refine run_append.mpr ⟨_, hchoose, run_append.mpr ⟨_, hremove, ?_⟩⟩
  generalize del.filter (· ∈ c.listSegmentSeqs) = gone
  simp [run, Compacting.step, Compacting.stepPrune, Compacting.setCompactor]

/-- A call that finds every chosen file removes them all and prunes the index. -/
theorem run_compactRun (crc : Bytes → UInt32) {t : Nat} {del : List Nat}
    (hdel : segmentsToDelete t c.log.currentSegmentSeq (maxIdPerSegment c.log.index)
      c.listSegmentSeqs = del) (hlisted : ∀ q ∈ del, q ∈ c.listSegmentSeqs) :
    run (Compacting.step crc) c (compactRun c.compactors.length del.length t) = some
      { log := { c.log with index := pruneIndex c.log.index del }
        removed := c.removed ++ del.map fun q => (q, t)
        compactors := c.compactors ++ [.done (.ok del.length)] } := by
  have hall : del.filter (· ∈ c.listSegmentSeqs) = del :=
    List.filter_eq_self.mpr fun q hq => decide_eq_true (hlisted q hq)
  rw [run_call crc hdel, hall, pruned_length]

theorem listSegmentSeqs_eq (c : Compacting) : c.listSegmentSeqs = c.contents.seqs := by
  rw [Compacting.contents, Dir.seqs_filter, State.contents, Dir.seqs_map]
  rfl

end Call

end BlipMQ.Wal
