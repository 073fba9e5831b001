import BlipMQ.Wal.Compactor
import BlipMQ.Wal.Durability

/-!
# WAL — a compaction whose removals fail

`compact_below` removes the chosen files one by one and prunes the index
after the last of them, and only if it has removed any. An error on the way
returns at once. This module follows one call through every outcome of
every removal, and says when the index it leaves behind leads to files
that exist.
-/

namespace BlipMQ.Wal

/-! ## One call, by the outcome of each removal -/

/-- Outcome of a `remove_file`. -/
inductive RemoveResult where
  | removed
  | notFound
  | failed (reason : String)
  deriving DecidableEq, Repr

def RemoveResult.isFailed : RemoveResult → Bool
  | .failed _ => true
  | _ => false

/-- What a call leaves behind and returns: the index, the numbers of the segment
files there are, and the result. -/
structure Compacted where
  index : Index
  segments : List Nat
  result : Except WalError Nat

/-- The deletion loop, with the files there are and the number of files removed
so far. -/
def removeChosen (remove : Nat → RemoveResult) :
    List Nat → List Nat → Nat → List Nat × Except WalError Nat
  | [], segments, deleted => (segments, .ok deleted)
  | seq :: rest, segments, deleted =>
    match remove seq with
    | .removed => removeChosen remove rest (segments.filter (· ≠ seq)) (deleted + 1)
    -- gone already, whoever took it
    | .notFound => removeChosen remove rest (segments.filter (· ≠ seq)) deleted
    | .failed reason => (segments, .error (.io reason))

/-- What a call chooses, from the index and the listing. -/
def chosenSegments (index : Index) (segments : List Nat) (activeSeq safeThreshold : Nat) :
    List Nat :=
  segmentsToDelete safeThreshold activeSeq (maxIdPerSegment index) segments

/-- What follows the loop: its error returns at once; otherwise the index is pruned,
if anything was deleted. -/
def afterLoop (index : Index) (toDelete : List Nat) (out : List Nat × Except WalError Nat) :
    Compacted :=
  match out.2 with
  | .error e => ⟨index, out.1, .error e⟩
  | .ok deleted =>
    ⟨if 0 < deleted then pruneIndex index toDelete else index, out.1, .ok deleted⟩

/-- `compact_below`, on an index and the segment files there are. -/
def compactBelow (index : Index) (segments : List Nat) (activeSeq safeThreshold : Nat)
    (listing : IoResult) (remove : Nat → RemoveResult) : Compacted :=
  match listing with
  | .failed reason => ⟨index, segments, .error (.io reason)⟩
  | .ok =>
    let toDelete := chosenSegments index segments activeSeq safeThreshold
    afterLoop index toDelete (removeChosen remove toDelete segments 0)

/-! ## The loop -/

/-- The chosen files before the first whose removal fails. -/
def beforeFailure (remove : Nat → RemoveResult) (toDelete : List Nat) : List Nat :=
  toDelete.takeWhile fun seq => !(remove seq).isFailed

section Loop

variable {remove : Nat → RemoveResult} {toDelete segments : List Nat} {deleted : Nat}

theorem beforeFailure_cons_failed {seq : Nat} {reason : String} (h : remove seq = .failed reason)
    (rest : List Nat) : beforeFailure remove (seq :: rest) = [] := by
  rw [beforeFailure, List.takeWhile_cons_of_neg]
  simp [h, RemoveResult.isFailed]

theorem beforeFailure_cons {seq : Nat} (h : (remove seq).isFailed = false) (rest : List Nat) :
    beforeFailure remove (seq :: rest) = seq :: beforeFailure remove rest := by
  rw [beforeFailure, List.takeWhile_cons_of_pos]
  · rfl
  · simp [h]

theorem beforeFailure_subset : ∀ seq ∈ beforeFailure remove toDelete, seq ∈ toDelete :=
  fun _ h => (List.takeWhile_prefix _).subset h

/-- What the loop takes away are the files before the first failure. -/
theorem mem_removeChosen {q : Nat} :
    q ∈ (removeChosen remove toDelete segments deleted).1 ↔
      q ∈ segments ∧ q ∉ beforeFailure remove toDelete := by
  induction toDelete generalizing segments deleted with
  | nil => simp [removeChosen, beforeFailure]
  | cons seq rest ih =>
    cases hr : remove seq with
    | removed =>
      rw [beforeFailure_cons (by rw [hr]; rfl), removeChosen, hr, ih]
      simp [and_assoc]
    | notFound =>
      rw [beforeFailure_cons (by rw [hr]; rfl), removeChosen, hr, ih]
      simp [and_assoc]
    | failed reason =>
      rw [beforeFailure_cons_failed hr, removeChosen, hr]
      simp

/-- The loop comes through if no removal fails, and counts those that succeed. -/
theorem removeChosen_ok (h : ∀ seq ∈ toDelete, (remove seq).isFailed = false) :
    (removeChosen remove toDelete segments deleted).2 =
      .ok (deleted + toDelete.countP fun seq => remove seq = .removed) := by
  induction toDelete generalizing segments deleted with
  | nil => rfl
  | cons seq rest ih =>
    obtain ⟨hseq, hrest⟩ := List.forall_mem_cons.mp h
    cases hr : remove seq with
    | removed =>
      rw [removeChosen, hr, List.countP_cons_of_pos (by simp [hr])]
      exact (ih hrest).trans (by rw [Nat.add_assoc, Nat.add_comm 1])
    | notFound =>
      rw [removeChosen, hr, List.countP_cons_of_neg (by simp [hr])]
      exact ih hrest
    | failed reason =>
      rw [hr] at hseq
      cases hseq

theorem removeChosen_error (h : ∃ seq ∈ toDelete, (remove seq).isFailed = true) :
    ∃ e, (removeChosen remove toDelete segments deleted).2 = .error e := by
  induction toDelete generalizing segments deleted with
  | nil =>
    obtain ⟨seq, hseq, -⟩ := h
    exact absurd hseq List.not_mem_nil
  | cons seq rest ih =>
    have hrest (hr : (remove seq).isFailed = false) :
        ∃ seq ∈ rest, (remove seq).isFailed = true := by
      obtain ⟨q, hq, hfailed⟩ := h
      rcases List.mem_cons.mp hq with rfl | hq
      · rw [hr] at hfailed
        cases hfailed
      · exact ⟨q, hq, hfailed⟩
    cases hr : remove seq with
    | removed =>
      rw [removeChosen, hr]
      exact ih (hrest (by rw [hr]; rfl))
    | notFound =>
      rw [removeChosen, hr]
      exact ih (hrest (by rw [hr]; rfl))
    | failed reason =>
      rw [removeChosen, hr]
      exact ⟨_, rfl⟩

end Loop

/-! ## The index and the files -/

/-- Every entry of the index points to a segment file that exists. -/
def EntriesLead (index : Index) (segments : List Nat) : Prop :=
  ∀ id loc, index.lookup id = some loc → loc.segmentSeq ∈ segments

theorem entriesLead_iff {index : Index} {segments : List Nat} :
    EntriesLead index segments ↔ ∀ e ∈ index.entries, e.2.segmentSeq ∈ segments := by
  constructor
  · rintro h ⟨id, loc⟩ he
    exact h id loc (AList.mem_lookup_iff.mpr he)
  · intro h id loc hl
    exact h ⟨id, loc⟩ (AList.mem_lookup_iff.mp hl)

instance EntriesLead.decidable (index : Index) (segments : List Nat) :
    Decidable (EntriesLead index segments) :=
  decidable_of_iff _ entriesLead_iff.symm

section Call

variable (index : Index) (segments : List Nat) (activeSeq safeThreshold : Nat)
  (listing : IoResult) (remove : Nat → RemoveResult)

/-- The call comes to its pruning: the listing and every removal go without an error
other than "not found", and some file is removed. -/
def Prunes : Prop :=
  listing = .ok ∧
    (∀ seq ∈ chosenSegments index segments activeSeq safeThreshold,
      (remove seq).isFailed = false) ∧
    ∃ seq ∈ chosenSegments index segments activeSeq safeThreshold, remove seq = .removed

variable {index segments activeSeq safeThreshold listing remove}

theorem mem_segments_compactBelow {q : Nat} :
    q ∈ (compactBelow index segments activeSeq safeThreshold listing remove).segments ↔
      q ∈ segments ∧ (listing = .ok →
        q ∉ beforeFailure remove (chosenSegments index segments activeSeq safeThreshold)) := by
  cases listing with
  | failed reason => simp [compactBelow]
  | ok =>
    have hsegments : (compactBelow index segments activeSeq safeThreshold .ok remove).segments =
        (removeChosen remove (chosenSegments index segments activeSeq safeThreshold)
          segments 0).1 := by
      unfold compactBelow afterLoop
      dsimp only
      split <;> rfl
    rw [hsegments, mem_removeChosen]
    simp

/-- A call that comes to its pruning takes out every entry of a chosen segment. -/
theorem index_compactBelow_of_prunes
    (h : Prunes index segments activeSeq safeThreshold listing remove) :
    (compactBelow index segments activeSeq safeThreshold listing remove).index =
      pruneIndex index (chosenSegments index segments activeSeq safeThreshold) := by
  obtain ⟨rfl, hok, q, hq, hremoved⟩ := h
  have hcount : 0 < 0 + (chosenSegments index segments activeSeq safeThreshold).countP
      fun seq => remove seq = .removed := by
    rw [Nat.zero_add, List.countP_pos_iff]
    exact ⟨q, hq, decide_eq_true hremoved⟩
  unfold compactBelow afterLoop
  dsimp only
  rw [removeChosen_ok hok]
  exact if_pos hcount

/-- Any other call leaves the index as it was. -/
theorem index_compactBelow_of_not_prunes
    (h : ¬ Prunes index segments activeSeq safeThreshold listing remove) :
    (compactBelow index segments activeSeq safeThreshold listing remove).index = index := by
  cases listing with
  | failed reason => rfl
  | ok =>
    unfold compactBelow afterLoop
    dsimp only
    by_cases hok : ∀ seq ∈ chosenSegments index segments activeSeq safeThreshold,
        (remove seq).isFailed = false
    · rw [removeChosen_ok hok]
      refine if_neg ?_
      rw [Nat.zero_add, List.countP_pos_iff]
      rintro ⟨q, hq, hremoved⟩
      exact h ⟨rfl, hok, q, hq, of_decide_eq_true hremoved⟩
    · obtain ⟨q, hfailed⟩ := not_forall.mp hok
      obtain ⟨hq, hfailed⟩ := Classical.not_imp.mp hfailed
      have herror : ∃ e, (removeChosen remove
          (chosenSegments index segments activeSeq safeThreshold) segments 0).2 = .error e :=
        removeChosen_error ⟨q, hq, Bool.eq_true_of_not_eq_false hfailed⟩
      obtain ⟨e, he⟩ := herror
      rw [he]

end Call

/-- **When a call leaves an index that leads to files.** Either it comes to its pruning,
and every entry of a segment it has not chosen led to a file before; or every
entry led to a file before and, once the listing is there, to none of the chosen
files that come before the first whose removal fails. -/
theorem compactBelow_entries_lead_iff (index : Index) (segments : List Nat)
    (activeSeq safeThreshold : Nat) (listing : IoResult) (remove : Nat → RemoveResult) :
    EntriesLead (compactBelow index segments activeSeq safeThreshold listing remove).index
        (compactBelow index segments activeSeq safeThreshold listing remove).segments ↔
      (Prunes index segments activeSeq safeThreshold listing remove ∧
        ∀ id loc, index.lookup id = some loc →
          loc.segmentSeq ∈ chosenSegments index segments activeSeq safeThreshold ∨
            loc.segmentSeq ∈ segments) ∨
      ∀ id loc, index.lookup id = some loc → loc.segmentSeq ∈ segments ∧
        (listing = .ok → loc.segmentSeq ∉
          beforeFailure remove (chosenSegments index segments activeSeq safeThreshold)) := by
  unfold EntriesLead
  simp only [mem_segments_compactBelow]
  by_cases hprunes : Prunes index segments activeSeq safeThreshold listing remove
  · simp only [index_compactBelow_of_prunes hprunes, lookup_pruneIndex]
    constructor
    · intro h
      refine .inl ⟨hprunes, fun id loc hl => ?_⟩
      by_cases hchosen : loc.segmentSeq ∈ chosenSegments index segments activeSeq safeThreshold
      · exact .inl hchosen
      · exact .inr (h id loc ⟨hl, hchosen⟩).1
    · rintro (⟨-, h⟩ | h) id loc ⟨hl, hkept⟩
      · -- what is gone was chosen
        exact ⟨(h id loc hl).resolve_left hkept, fun _ hgone =>
          hkept (beforeFailure_subset _ hgone)⟩
      · exact h id loc hl
  · rw [index_compactBelow_of_not_prunes hprunes]
    constructor
    · exact .inr
    · rintro (⟨h, -⟩ | h)
      · exact absurd h hprunes
      · exact h

/-- Three durable appends, each in a segment of its own. -/
def threeSegmentRun : List Action :=
  twoSegmentRun ++
    [.buildRequest [8, 8, 8, 8, 8, 8, 8, 8] true, .sendRequest 0, .recv 0, .flushFile .ok,
      .createSegment .ok, .writeHeader .ok, .syncHeader .ok, .writeBatch .ok, .indexBatch 0,
      .flushFile .ok]

/-- A call on the log as it is, in which the removal of the second file fails. -/
def secondFails (c : Compacting) : Compacted :=
  compactBelow c.log.index c.listSegmentSeqs c.log.currentSegmentSeq 2 .ok fun seq =>
    if seq = 2 then .failed "permission denied" else .removed

/-- The next call, for the file that is gone. -/
def calledAgain (c : Compacting) : Compacted :=
  compactBelow (secondFails c).index (secondFails c).segments c.log.currentSegmentSeq 1 .ok
    fun _ => .notFound

/-- The removal of the second file fails after the first is gone, and the index still
leads there. Calling again does not help: nothing is left to remove, so nothing
is pruned, and the call returns `Ok`. -/
theorem failed_compaction_leaves_entry :
    ∃ c, run (Compacting.step Crc32.crc32)
        (Compacting.start freshLog tinyConfig fun _ => headerLen) (threeSegmentRun.map .log) =
          some c ∧
      EntriesLead c.log.index c.listSegmentSeqs ∧
      (secondFails c).result = .error (.io "permission denied") ∧
      ¬ EntriesLead (secondFails c).index (secondFails c).segments ∧
      (calledAgain c).result = .ok 0 ∧
      ¬ EntriesLead (calledAgain c).index (calledAgain c).segments := by
  decide +kernel

/-! ## The call as steps of the log -/

/-- The `i`-th call has returned, and this is what it has left behind. -/
structure Compacting.Returned (c : Compacting) (i : Nat) (out : Compacted) : Prop where
  index : c.log.index = out.index
  segments : c.listSegmentSeqs = out.segments
  result : c.compactors[i]? = some (.done out.result)

section Steps

variable {c : Compacting} {remove : Nat → RemoveResult}

/-- The loop and what follows it, step by step; a removal does not find its file just
if there is none. -/
theorem run_removeChosen (crc : Bytes → UInt32) {i t d : Nat} {toDelete rest : List Nat}
    (hk : c.compactors[i]? = some (.removing t toDelete rest d)) (hnd : rest.Nodup)
    (htrue : ∀ q ∈ rest, remove q = .notFound ↔ q ∉ c.listSegmentSeqs) :
    ∃ acts c', run (Compacting.step crc) c acts = some c' ∧ (∀ a ∈ acts, a.isLog = false) ∧
      c'.Returned i
        (afterLoop c.log.index toDelete (removeChosen remove rest c.listSegmentSeqs d)) := by
  have hlt : i < c.compactors.length := (List.getElem?_eq_some_iff.mp hk).1
  induction rest generalizing c d with
  | nil =>
    exact ⟨[.prune i], _, run_cons.mpr ⟨_, step_prune crc hk, rfl⟩,
      by simp [CompactAction.isLog], rfl, rfl, List.getElem?_set_self hlt⟩
  | cons q rest ih =>
    obtain ⟨hq, hnd⟩ := List.nodup_cons.mp hnd
    obtain ⟨htrueq, htrue⟩ := List.forall_mem_cons.mp htrue
    have hlisted (hr : remove q ≠ .notFound) : q ∈ c.listSegmentSeqs :=
      Decidable.not_not.mp fun hgone => hr (htrueq.mpr hgone)
    cases hr : remove q with
    | removed =>
      have hstep := step_removeNext_listed crc hk (hlisted (by simp [hr]))
      have hlist := listSegmentSeqs_removed c
        (c.compactors.set i (.removing t toDelete rest (d + 1))) q t
      have hlater : ∀ x ∈ rest, remove x = .notFound ↔ x ∉ c.listSegmentSeqs.filter (· ≠ q) :=
        fun x hx => (htrue x hx).trans (not_congr (mem_listSegmentSeqs_removed hq hx)).symm
      obtain ⟨acts, c', hrun, hcalls, hreturned⟩ := ih (List.getElem?_set_self hlt) hnd
        (hlist ▸ hlater) (by simpa using hlt)
      rw [hlist] at hreturned
      refine ⟨.removeNext i .ok :: acts, c', run_cons.mpr ⟨_, hstep, hrun⟩, ?_, ?_⟩
      · exact List.forall_mem_cons.mpr ⟨rfl, hcalls⟩
      · rw [removeChosen, hr]
        exact hreturned
    | notFound =>
      have hgone : q ∉ c.listSegmentSeqs := htrueq.mp hr
      have hstep := step_removeNext_gone crc hk hgone
      have hall : c.listSegmentSeqs.filter (· ≠ q) = c.listSegmentSeqs :=
        List.filter_eq_self.mpr fun x hx => decide_eq_true fun heq => hgone (heq ▸ hx)
      obtain ⟨acts, c', hrun, hcalls, hreturned⟩ :=
        @ih (c.setCompactor i (.removing t toDelete rest d)) d (List.getElem?_set_self hlt) hnd
          htrue (by simpa [Compacting.setCompactor] using hlt)
      refine ⟨.removeNext i .ok :: acts, c', run_cons.mpr ⟨_, hstep, hrun⟩, ?_, ?_⟩
      · exact List.forall_mem_cons.mpr ⟨rfl, hcalls⟩
      · rw [removeChosen, hr, hall]
        exact hreturned
    | failed reason =>
      have hstep := step_removeNext_failed crc hk (hlisted (by simp [hr])) reason
      refine ⟨[.removeNext i (.failed reason)], _, run_cons.mpr ⟨_, hstep, rfl⟩,
        by simp [CompactAction.isLog], ?_⟩
      rw [removeChosen, hr]
      exact ⟨rfl, rfl, List.getElem?_set_self hlt⟩

/-- **A call that nothing interrupts is a run of the steps**, with these outcomes. -/
theorem run_compactBelow (crc : Bytes → UInt32) (c : Compacting) (t : Nat) (listing : IoResult)
    (htrue : ∀ q, remove q = .notFound ↔ q ∉ c.listSegmentSeqs) :
    ∃ acts c', run (Compacting.step crc) c acts = some c' ∧ (∀ a ∈ acts, a.isLog = false) ∧
      c'.Returned c.compactors.length
        (compactBelow c.log.index c.listSegmentSeqs c.log.currentSegmentSeq t listing remove) := by
  cases listing with
  | failed reason =>
    have hrun : run (Compacting.step crc) c [.compactBelow t, .scanIndex c.compactors.length,
        .listDir c.compactors.length (.failed reason)] =
          some { c with compactors := c.compactors ++ [.done (.error (.io reason))] } := by
      simp [run, Compacting.step, Compacting.stepScan, Compacting.stepList,
        Compacting.setCompactor]
    exact ⟨_, _, hrun, by simp [CompactAction.isLog], rfl, rfl, List.getElem?_concat_length⟩
  | ok =>
    have hchoose := run_choose crc c t
    let chosen := chosenSegments c.log.index c.listSegmentSeqs c.log.currentSegmentSeq t
    let listed : Compacting :=
      { c with compactors := c.compactors ++ [.removing t chosen chosen 0] }
    have hk : listed.compactors[c.compactors.length]? = some (.removing t chosen chosen 0) :=
      List.getElem?_concat_length
    obtain ⟨acts, c', hrun, hcalls, hreturned⟩ := run_removeChosen crc hk
      ((segmentsToDelete_sorted ..).imp Nat.ne_of_lt) fun q _ => htrue q
    refine ⟨_, c', run_append.mpr ⟨_, hchoose, hrun⟩, ?_, hreturned⟩
    intro a ha
    rcases List.mem_append.mp ha with ha | ha
    · simp only [List.mem_cons, List.not_mem_nil, or_false] at ha
      rcases ha with rfl | rfl | rfl <;> rfl
    · exact hcalls a ha

end Steps

end BlipMQ.Wal
