import BlipMQ.Wal.Crash
import BlipMQ.Wal.Settled

/-!
# WAL — ids across sessions

A log lives through many processes. Each opens the directory the one before
left behind, appends, rolls and compacts, and stops or crashes; the next id
is one more than the highest id the files still hold. An id is therefore
safe from reuse as long as some file holds a record with it or a higher
one, and only a compaction can take that away.
-/

namespace BlipMQ.Wal

/-! ## The next id -/

/-- The ids a scan of the files finds. -/
def idsFound (crc : Bytes → UInt32) (files : List (Nat × Bytes)) : List Nat :=
  files.flatMap fun p => (recordsFound crc p.2).map WalRecord.id

section Open

variable {crc : Bytes → UInt32} {config : WalConfig} {dir : Dir Bytes} {o : Opened}

/-- The next id is at most one more than some id. -/
theorem exists_ge_of_lt_nextIdAfter {n a : Nat} {ids : List Nat} (h : a < nextIdAfter n ids) :
    a < n ∨ ∃ id ∈ ids, a ≤ id := by
  induction ids generalizing n with
  | nil => exact .inl h
  | cons x ids ih =>
    rcases ih h with hlt | ⟨id, hid, hle⟩
    · dsimp only at hlt
      split at hlt
      · have : (x + 1) % 2 ^ 64 ≤ x + 1 := Nat.mod_le _ _
        exact .inr ⟨x, List.mem_cons_self, by omega⟩
      · exact .inl hlt
    · exact .inr ⟨id, List.mem_cons_of_mem _ hid, hle⟩

theorem recordsFound_of_scan {file : Bytes} {found : List (WalRecord × Nat)} {stop : Nat}
    (h : scanRecords crc (file.drop headerLen) headerLen = .ok (found, stop)) :
    recordsFound crc file = found.map Prod.fst := by
  rw [recordsFound, h]

theorem nextId_foldl_indexRecord (seq : Nat) (entries : List (Nat × Nat)) (st : Index × Nat) :
    (entries.foldl (indexRecord seq) st).2 = nextIdAfter st.2 (entries.map Prod.fst) := by
  induction entries generalizing st with
  | nil => rfl
  | cons e entries ih => exact ih _

/-- `next_id` has moved past what was found. -/
theorem openSegments_nextId {files : List (Nat × Bytes)} {st : Index × Nat} {tail : Nat × Nat}
    {out : (Index × Nat) × Nat × Nat} (h : openSegments crc files st tail = .ok out) :
    out.1.2 = nextIdAfter st.2 (idsFound crc files) := by
  induction files generalizing st tail with
  | nil => cases h; rfl
  | cons a files ih =>
    obtain ⟨-, found, stop, hscan, hrest⟩ := openSegments_cons_ok h
    have hids : idsFound crc (a :: files) =
        (recordsFound crc a.2).map WalRecord.id ++ idsFound crc files := List.flatMap_cons
    rw [ih hrest, nextId_foldl_indexRecord, hids, recordsFound_of_scan hscan]
    simp only [nextIdAfter, List.foldl_append, List.map_map]
    rfl

/-- What opening a directory amounts to, for any directory that opens. -/
structure OpenedFrom (crc : Bytes → UInt32) (dir : Dir Bytes) (o : Opened) : Prop where
  nextId : o.nextId = nextIdAfter 1 (idsFound crc dir.files)
  files : ∀ seq bytes, dir.find? seq = some bytes → o.dir.find? seq = some bytes
  scanned : ∀ p ∈ o.dir.files, headerLen ≤ p.2.length ∧
    ∃ found stop, scanRecords crc (p.2.drop headerLen) headerLen = .ok (found, stop)
  cursor : ∃ front bytes found, o.dir.files = front ++ [(o.currentSeq, bytes)] ∧
    scanRecords crc (bytes.drop headerLen) headerLen = .ok (found, o.currentOffset)

theorem openedFrom (h : openWithConfig crc config (.directory dir) = .ok o) :
    OpenedFrom crc dir o := by
  obtain ⟨front, bytes, found, hfiles, -, hscan⟩ := openWithConfig_cursor h
  obtain ⟨dir', heq, ⟨hempty, rfl⟩ | ⟨-, out, hopen, rfl⟩⟩ := openWithConfig_ok h <;> cases heq
  · obtain rfl : dir = .empty := Dir.ext_files hempty
    refine ⟨rfl, nofun, fun p hp => ?_, front, bytes, found, hfiles, hscan⟩
    obtain rfl : p = (1, segmentHeader) := List.mem_singleton.mp hp
    exact ⟨by simp, _, _, scanRecords_nil headerLen⟩
  · exact ⟨openSegments_nextId hopen, fun _ _ hb => hb, openSegments_scanned hopen, front, bytes,
      found, hfiles, hscan⟩

end Open

/-! ## Sessions -/

/-- A process that opens the log: its configuration, what happens while it
runs, how much of each file outlives it besides the synced part, and how
much of that is durable by the time the next process comes. A clean stop
leaves all of every file. -/
structure Session where
  config : WalConfig
  acts : List CompactAction
  cut : Nat → Nat
  durable : Nat → Nat

/-- The log between two processes: its files, how much of each is durable, and
the ids for which `append_durable` has returned `Ok` so far. -/
structure AtRest where
  dir : Dir Bytes
  synced : Nat → Nat
  acked : List Nat

/-- The ids for which `append_durable` has returned `Ok`. -/
def State.ackedIds (s : State) : List Nat :=
  s.answers.filterMap fun answer =>
    match answer.2 with
    | .ok () => some answer.1.record.id
    | .error _ => none

def State.syncedLen (s : State) (seq : Nat) : Nat :=
  ((s.dir.find? seq).map SegFile.synced).getD 0

/-- What the end of the process leaves under the names that are left. -/
def Compacting.crashImage (c : Compacting) (cut : Nat → Nat) : Dir Bytes :=
  (c.log.crashImage cut).filter fun seq => seq ∉ c.removedSeqs

/-- One process after another: open, run, stop. -/
def AtRest.session (crc : Bytes → UInt32) (r : AtRest) (x : Session) : Option AtRest :=
  match openWithConfig crc x.config (.directory r.dir) with
  -- no log, so no ids either: not a session
  | .error _ => none
  | .ok o =>
    (run (Compacting.step crc) (Compacting.start o x.config r.synced) x.acts).map fun c =>
      ⟨c.crashImage x.cut, fun seq => max (c.log.syncedLen seq) (x.durable seq),
        r.acked ++ c.log.ackedIds⟩

/-- In every state of the process that opens the log next, the id it hands out
next is above all that were acknowledged before, as long as its counter
does not wrap. -/
def FreshIds (crc : Bytes → UInt32) (config : WalConfig) (r : AtRest) (o : Opened) : Prop :=
  ∀ acts c, run (Compacting.step crc) (Compacting.start o config r.synced) acts = some c →
    o.nextId + c.log.taken < 2 ^ 64 → ∀ a ∈ r.acked, a < c.log.nextId

/-! ## The condition on removals -/

/-- The durable part of a file in front of the cursor. -/
def State.durablePart (s : State) (seq : Nat) : Bytes :=
  match s.dir.find? seq with
  | none => []
  | some f =>
    if seq < s.fileSeq then f.bytes.take f.synced
    else if seq = s.fileSeq then f.bytes.take (min f.synced s.filePos)
    -- the next segment of a roll, not in use yet
    else []

def State.durableIds (crc : Bytes → UInt32) (s : State) (seq : Nat) : List Nat :=
  (recordsFound crc (s.durablePart seq)).map WalRecord.id

/-- The file a step takes away. -/
def Compacting.removes (c : Compacting) : CompactAction → Option Nat
  | .removeNext i .ok =>
    match c.compactors[i]? with
    | some (.removing _ _ (seq :: _) _) => if seq ∈ c.listSegmentSeqs then some seq else none
    | _ => none
  | _ => none

/-- **The condition on removals.** A file that `remove_file` takes away is older
than the one being written, and for every acknowledged id there is another
file with a durable record of that id or a higher one. -/
def RemovesCovered (crc : Bytes → UInt32) (acked : List Nat) (c : Compacting)
    (act : CompactAction) : Prop :=
  ∀ seq ∈ c.removes act, seq < c.log.fileSeq ∧
    ∀ a ∈ acked ++ c.log.ackedIds, ∃ q ∈ c.listSegmentSeqs, q ≠ seq ∧
      ∃ id ∈ c.log.durableIds crc q, a ≤ id

instance (crc : Bytes → UInt32) (acked : List Nat) (c : Compacting) (act : CompactAction) :
    Decidable (RemovesCovered crc acked c act) :=
  inferInstanceAs (Decidable (∀ seq ∈ c.removes act, seq < c.log.fileSeq ∧
    ∀ a ∈ acked ++ c.log.ackedIds, ∃ q ∈ c.listSegmentSeqs, q ≠ seq ∧
      ∃ id ∈ c.log.durableIds crc q, a ≤ id))

/-- Every removal of the session meets the condition. -/
def KeepsCovered (crc : Bytes → UInt32) (r : AtRest) (x : Session) : Prop :=
  match openWithConfig crc x.config (.directory r.dir) with
  | .error _ => True
  | .ok o => Meets (Compacting.step crc) (RemovesCovered crc r.acked)
      (Compacting.start o x.config r.synced) x.acts

instance (crc : Bytes → UInt32) (r : AtRest) (x : Session) : Decidable (KeepsCovered crc r x) :=
  match h : openWithConfig crc x.config (.directory r.dir) with
  | .error _ => isTrue (by simp [KeepsCovered, h])
  | .ok o => decidable_of_iff (Meets (Compacting.step crc) (RemovesCovered crc r.acked)
      (Compacting.start o x.config r.synced) x.acts) (by simp [KeepsCovered, h])

/-! ## A session keeps acknowledged ids covered -/

/-- A settled start of the file holds a record of that id or a higher one. -/
def State.Covers (crc : Bytes → UInt32) (s : State) (seq a : Nat) : Prop :=
  ∃ p rs, s.Settled seq p ∧ IsSegment crc p rs ∧ ∃ r ∈ rs, a ≤ r.id

/-- The same between two processes. -/
def AtRest.Covers (crc : Bytes → UInt32) (r : AtRest) (a : Nat) : Prop :=
  ∃ seq bytes p rs, r.dir.find? seq = some bytes ∧ p <+: bytes ∧ p.length ≤ r.synced seq ∧
    IsSegment crc p rs ∧ ∃ x ∈ rs, a ≤ x.id

structure SessionInv (crc : Bytes → UInt32) (first : Nat) (acked : List Nat) (c : Compacting) :
    Prop where
  log : Steady crc first c.log
  removed : ∀ q ∈ c.removedSeqs, q < c.log.fileSeq
  covered : ∀ a ∈ acked ++ c.log.ackedIds, ∃ q ∉ c.removedSeqs, c.log.Covers crc q a

section Sessions

variable {crc : Bytes → UInt32} {first a seq : Nat} {acked : List Nat} {c c' : Compacting}
  {r r' : AtRest} {config : WalConfig} {o : Opened} {act : CompactAction} {s : State}

theorem State.mem_ackedIds : a ∈ s.ackedIds ↔ ∃ q, (q, .ok ()) ∈ s.answers ∧ q.record.id = a := by
  simp only [State.ackedIds, List.mem_filterMap]
  constructor
  · rintro ⟨⟨q, result⟩, hmem, hsome⟩
    cases result with
    | ok u => exact ⟨q, hmem, Option.some.inj hsome⟩
    | error e => cases hsome
  · rintro ⟨q, hmem, rfl⟩
    exact ⟨_, hmem, rfl⟩

/-- The durable part is settled. -/
theorem settled_of_durablePart {p : Bytes} (hp : p <+: s.durablePart seq) (hpos : 0 < p.length) :
    s.Settled seq p := by
  have hle := hp.length_le
  unfold State.durablePart at hp hle
  split at hle
  · simp only [List.length_nil] at hle
    omega
  · rename_i f hf
    rw [hf] at hp
    dsimp only at hp
    split at hle
    · rename_i hlt
      rw [if_pos hlt] at hp
      rw [List.length_take] at hle
      exact ⟨f, hf, ⟨hp.trans (List.take_prefix _ _), by omega⟩, Nat.le_of_lt hlt, by omega⟩
    · rename_i hge
      split at hle
      · rename_i heq
        rw [if_neg hge, if_pos heq] at hp
        rw [List.length_take] at hle
        exact ⟨f, hf, ⟨hp.trans (List.take_prefix _ _), by omega⟩, Nat.le_of_eq heq, by omega⟩
      · simp only [List.length_nil] at hle
        omega

/-- What the condition finds in the durable part is covered. -/
theorem covers_of_durableIds {id : Nat} (h : id ∈ s.durableIds crc seq) (hle : a ≤ id) :
    s.Covers crc seq a := by
  obtain ⟨x, hx, rfl⟩ := List.mem_map.mp h
  cases hscan : scanRecords crc ((s.durablePart seq).drop headerLen) headerLen with
  | error e =>
    rw [recordsFound, hscan] at hx
    cases hx
  | ok out =>
    rw [recordsFound_of_scan hscan] at hx
    have hlen : headerLen ≤ (s.durablePart seq).length := by
      by_contra hshort
      rw [List.drop_eq_nil_of_le (by omega), scanRecords_nil] at hscan
      cases hscan
      cases hx
    obtain ⟨-, hseg⟩ := isSegment_of_scan hlen hscan
    refine ⟨_, _, settled_of_durablePart (List.take_prefix _ _) ?_, hseg, x, hx, hle⟩
    exact Nat.lt_of_lt_of_le (by decide) hseg.header

/-- What a step of the log or of a compactor does. -/
theorem Compacting.step_cases (hs : Compacting.step crc c act = some c') :
    (∃ a log', Wal.step crc c.log a = some log' ∧ c' = { c with log := log' }) ∨
      (∃ index, c'.log = c.log.withIndex index ∧ c'.removed = c.removed) ∨
      ∃ seq t, c.removes act = some seq ∧ c'.log = c.log ∧
        c'.removed = c.removed ++ [(seq, t)] := by
  cases hlog : act.isLog with
  | true =>
    cases act with
    | log a =>
      obtain ⟨log', hstep, rfl⟩ := Option.map_eq_some_iff.mp hs
      exact .inl ⟨a, log', hstep, rfl⟩
    | compactBelow | scanIndex | listDir | removeNext | prune => cases hlog
  | false =>
    cases Compacting.callStep hlog hs with
    | @removed i t seq deleted toDelete rest hk hlisted =>
      refine .inr (.inr ⟨seq, t, ?_, rfl, rfl⟩)
      simp only [Compacting.removes, hk, if_pos hlisted]
    | pruned hk => exact .inr (.inl ⟨_, rfl, rfl⟩)
    | started | scanned | notListed | listed | notRemoved | passedOver =>
      exact .inr (.inl ⟨c.log.index, rfl, rfl⟩)

theorem Compacting.step_steady (h : Steady crc first c.log)
    (hs : Compacting.step crc c act = some c') : Steady crc first c'.log := by
  rcases Compacting.step_cases hs with ⟨a, log', hlog, rfl⟩ | ⟨index, hlog, -⟩ | ⟨_, _, -, hlog, -⟩
  · exact h.step hlog
  · rw [hlog]
    exact h.withIndex index
  · rw [hlog]
    exact h

theorem State.Covers.step {s' : State} (h : s.Covers crc seq a) (hst : Steady crc first s)
    (hd : DiskStep crc s s') : s'.Covers crc seq a := by
  obtain ⟨p, rs, hp, hseg, hr⟩ := h
  exact ⟨p, rs, hp.step hst hd, hseg, hr⟩

/-- Steps of the log: what is acknowledged stands in the active file. -/
theorem SessionInv.logStep (h : SessionInv crc first acked c) {a : Action} {log' : State}
    (hs : step crc c.log a = some log') : SessionInv crc first acked { c with log := log' } := by
  have hd := diskStep_of_step hs
  have hle := h.log.fileSeq_le hd
  have hkeep : ∀ a ∈ acked ++ c.log.ackedIds, ∃ q ∉ c.removedSeqs, log'.Covers crc q a := by
    intro a ha
    obtain ⟨q, hq, hcov⟩ := h.covered a ha
    exact ⟨q, hq, hcov.step h.log hd⟩
  refine ⟨h.log.step hs, fun q hq => Nat.lt_of_lt_of_le (h.removed q hq) hle, ?_⟩
  intro a ha
  rcases List.mem_append.mp ha with hold | hnew
  · exact hkeep a (List.mem_append_left _ hold)
  · obtain ⟨q, hq, rfl⟩ := State.mem_ackedIds.mp hnew
    rcases h.log.answered hd hq with hbefore | ⟨p, rs, hp, hseg, hr⟩
    · exact hkeep _ (List.mem_append_right _ (State.mem_ackedIds.mpr ⟨q, hbefore, rfl⟩))
    · -- the record is in the active file, and only older files have been removed
      refine ⟨log'.fileSeq, fun hmem => ?_, p, rs, hp, hseg, q.record, hr, Nat.le_refl _⟩
      exact Nat.lt_irrefl _ (Nat.lt_of_lt_of_le (h.removed _ hmem) hle)

/-- **Every step that meets the condition keeps acknowledged ids covered.** -/
theorem SessionInv.step (h : SessionInv crc first acked c)
    (hcond : RemovesCovered crc acked c act) (hs : Compacting.step crc c act = some c') :
    SessionInv crc first acked c' := by
  have hlog := Compacting.step_steady h.log hs
  rcases Compacting.step_cases hs with ⟨a, log', hstep, rfl⟩ | ⟨index, heq, hsame⟩ |
      ⟨seq, t, hremoves, heq, hmore⟩
  · exact h.logStep hstep
  · have hseqs : c'.removedSeqs = c.removedSeqs := by rw [Compacting.removedSeqs, hsame]; rfl
    refine ⟨hlog, ?_, ?_⟩
    · rw [hseqs, heq]
      exact h.removed
    · rw [hseqs, heq]
      exact h.covered
  · -- a removal: the condition names another file that covers the id
    have hseqs : c'.removedSeqs = c.removedSeqs ++ [seq] := by
      rw [Compacting.removedSeqs, hmore, List.map_append]
      rfl
    obtain ⟨hlt, hothers⟩ := hcond seq hremoves
    refine ⟨hlog, ?_, ?_⟩
    · rw [hseqs, heq]
      exact forall_mem_concat h.removed hlt
    · rw [hseqs, heq]
      intro a ha
      obtain ⟨q, hq, hne, id, hid, hle⟩ := hothers a ha
      have hlisted : q ∉ c.removedSeqs := by simpa using (List.mem_filter.mp hq).2
      refine ⟨q, ?_, covers_of_durableIds hid hle⟩
      simp [hlisted, hne]

/-! ## From session to session -/

theorem OpenedFrom.seq_le (h : OpenedFrom crc r.dir o) {bytes : Bytes}
    (hfind : o.dir.find? seq = some bytes) : seq ≤ o.currentSeq := by
  obtain ⟨front, tail, found, hfiles, -⟩ := h.cursor
  exact Dir.le_last hfiles (Dir.find?_eq_some.mp hfind)

theorem OpenedFrom.steady (h : OpenedFrom crc r.dir o) (hnext : o.nextId < 2 ^ 64)
    (config : WalConfig) (synced : Nat → Nat) :
    Steady crc o.nextId (o.start config synced) := by
  obtain ⟨front, bytes, found, hfiles, hscan⟩ := h.cursor
  have hmem : (o.currentSeq, bytes) ∈ o.dir.files := by
    rw [hfiles]
    exact List.mem_append_right _ (List.mem_singleton_self _)
  obtain ⟨hstop, hseg⟩ := isSegment_of_scan (h.scanned _ hmem).1 hscan
  refine ⟨⟨o.index, _, _, Opened.start_inv hfiles hstop hnext (fun _ _ => trivial) trivial config
    synced, rfl, rfl⟩, ⟨bytes, min (synced o.currentSeq) bytes.length⟩, found.map Prod.fst, ?_,
    hstop, hseg, nofun⟩
  show (o.dir.map _).find? o.currentSeq = _
  rw [Dir.find?_map, Dir.find?_eq_some.mpr hmem]
  rfl

/-- What is covered between two processes is covered when the second starts. -/
theorem OpenedFrom.covers (h : OpenedFrom crc r.dir o) (hcov : r.Covers crc a)
    (config : WalConfig) : ∃ seq, (o.start config r.synced).Covers crc seq a := by
  obtain ⟨seq, bytes, p, rs, hfind, hp, hsync, hseg, hx⟩ := hcov
  have hopened := h.files seq bytes hfind
  refine ⟨seq, p, rs, ⟨⟨bytes, min (r.synced seq) bytes.length⟩, ?_, ⟨hp, ?_⟩,
    h.seq_le hopened, ?_⟩, hseg, hx⟩
  · show (o.dir.map _).find? seq = _
    rw [Dir.find?_map, hopened]
    rfl
  · exact Nat.le_min.mpr ⟨hsync, hp.length_le⟩
  · -- the scan of the tail file passed the whole start
    intro heq
    obtain ⟨front, tail, found, hfiles, hscan⟩ := h.cursor
    have hmem : (o.currentSeq, tail) ∈ o.dir.files := by
      rw [hfiles]
      exact List.mem_append_right _ (List.mem_singleton_self _)
    rw [show seq = o.currentSeq from heq, Dir.find?_eq_some.mpr hmem] at hopened
    obtain rfl := Option.some.inj hopened
    exact (hseg.scan hp hscan).1

theorem OpenedFrom.sessionInv (h : OpenedFrom crc r.dir o) (hnext : o.nextId < 2 ^ 64)
    (hcov : ∀ a ∈ r.acked, r.Covers crc a) (config : WalConfig) :
    SessionInv crc o.nextId r.acked (Compacting.start o config r.synced) := by
  refine ⟨h.steady hnext config r.synced, List.forall_mem_nil _, fun a ha => ?_⟩
  have ha' : a ∈ r.acked := by simpa [Compacting.start, Opened.start, State.ackedIds] using ha
  obtain ⟨seq, hseq⟩ := h.covers (hcov a ha') config
  exact ⟨seq, List.not_mem_nil, hseq⟩

/-- What is covered when a process ends, is covered by what it leaves. -/
theorem SessionInv.atRest (h : SessionInv crc first acked c) (cut durable : Nat → Nat) :
    ∀ a ∈ acked ++ c.log.ackedIds, AtRest.Covers crc
      ⟨c.crashImage cut, fun seq => max (c.log.syncedLen seq) (durable seq),
        acked ++ c.log.ackedIds⟩ a := by
  intro a ha
  obtain ⟨q, hq, p, rs, ⟨f, hf, hp, -, -⟩, hseg, hx⟩ := h.covered a ha
  have hlen : p.length ≤ max f.synced (cut q) := Nat.le_trans hp.durable (Nat.le_max_left _ _)
  refine ⟨q, f.bytes.take (max f.synced (cut q)), p, rs, ?_, ?_, ?_, hseg, hx⟩
  · refine Dir.find?_filter_of_pos (by simpa using hq) ?_
    rw [State.crashImage, Dir.find?_map, hf]
    rfl
  · exact List.prefix_take_iff.mpr ⟨hp.isPrefix, hlen⟩
  · refine Nat.le_trans ?_ (Nat.le_max_left _ _)
    rw [State.syncedLen, hf]
    exact hp.durable

/-- **A session that meets the condition keeps acknowledged ids covered.** -/
theorem AtRest.session_covers {x : Session} (hcov : ∀ a ∈ r.acked, r.Covers crc a)
    (hkeeps : KeepsCovered crc r x) (hs : r.session crc x = some r') :
    ∀ a ∈ r'.acked, r'.Covers crc a := by
  unfold AtRest.session at hs
  unfold KeepsCovered at hkeeps
  cases hopen : openWithConfig crc x.config (.directory r.dir) with
  | error e => rw [hopen] at hs; cases hs
  | ok o =>
    rw [hopen] at hs hkeeps
    obtain ⟨c, hrun, rfl⟩ := Option.map_eq_some_iff.mp hs
    have hstart := (openedFrom hopen).sessionInv (openWithConfig_nextId_lt hopen) hcov x.config
    have hinv : SessionInv crc o.nextId r.acked c :=
      run_invariant_of_meets (fun _ _ _ h hcond hs => h.step hcond hs) hstart hkeeps hrun
    exact hinv.atRest x.cut x.durable

/-- What is covered is found when the log is opened again. -/
theorem OpenedFrom.exists_id (h : OpenedFrom crc r.dir o) (hcov : r.Covers crc a) :
    ∃ id ∈ idsFound crc r.dir.files, a ≤ id := by
  obtain ⟨seq, bytes, p, rs, hfind, hp, -, hseg, x, hx, hle⟩ := hcov
  obtain ⟨-, found, stop, hscan⟩ := h.scanned _ (Dir.find?_eq_some.mp (h.files seq bytes hfind))
  refine ⟨x.id, List.mem_flatMap.mpr ⟨(seq, bytes), Dir.find?_eq_some.mp hfind, ?_⟩, hle⟩
  rw [recordsFound_of_scan hscan]
  exact List.mem_map_of_mem ((hseg.scan hp hscan).2 x hx)

/-- Ids are fresh exactly if the files still hold one at least as high. -/
theorem freshIds_iff (hopen : openWithConfig crc config (.directory r.dir) = .ok o)
    (hmax : ∀ id ∈ idsFound crc r.dir.files, id + 1 < 2 ^ 64) :
    FreshIds crc config r o ↔
      ∀ a ∈ r.acked, 0 < a → ∃ id ∈ idsFound crc r.dir.files, a ≤ id := by
  have h := openedFrom hopen
  have hnext := openWithConfig_nextId_lt hopen
  constructor
  · intro hfresh a ha hpos
    -- before anything happens, the next id is the one the scan came to
    have hlt := hfresh [] _ rfl (by simpa [Compacting.start, Opened.start] using hnext) a ha
    replace hlt : a < o.nextId := hlt
    rw [h.nextId] at hlt
    rcases exists_ge_of_lt_nextIdAfter hlt with hone | hid
    · omega
    · exact hid
  · intro hfound acts c hrun hwrap a ha
    have hsteady : Steady crc o.nextId c.log :=
      run_invariant (P := fun c => Steady crc o.nextId c.log)
        (fun _ _ _ h hs => Compacting.step_steady h hs) (h.steady hnext config r.synced) hrun
    rw [hsteady.nextId, Nat.mod_eq_of_lt hwrap]
    obtain ⟨hone, hlt⟩ := @lt_nextIdAfter 1 _ hmax
    rw [← h.nextId] at hone hlt
    by_cases hpos : 0 < a
    · obtain ⟨id, hid, hle⟩ := hfound a ha hpos
      have := hlt id hid
      omega
    · omega

/-- **Ids across sessions.** After any sequence of sessions, the ids handed out
next are above all acknowledged ones exactly if the files left still hold a
record at least as high as each of them. They do if every file that
compaction removed was older than the one being written and was not the
last one with such a record. The highest `u64` is the one id that must not
stand in a file: the counter wraps behind it. -/
theorem ids_not_reused_iff {r₀ : AtRest} (hnew : r₀.acked = []) {sessions : List Session}
    (hrun : run (AtRest.session crc) r₀ sessions = some r)
    (hopen : openWithConfig crc config (.directory r.dir) = .ok o)
    (hmax : ∀ id ∈ idsFound crc r.dir.files, id + 1 < 2 ^ 64) :
    (FreshIds crc config r o ↔
      ∀ a ∈ r.acked, 0 < a → ∃ id ∈ idsFound crc r.dir.files, a ≤ id) ∧
    (Meets (AtRest.session crc) (KeepsCovered crc) r₀ sessions → FreshIds crc config r o) := by
  refine ⟨freshIds_iff hopen hmax, fun hkeeps => (freshIds_iff hopen hmax).mpr ?_⟩
  have hcov : ∀ a ∈ r.acked, r.Covers crc a :=
    run_invariant_of_meets (P := fun r => ∀ a ∈ r.acked, r.Covers crc a)
      (fun _ _ _ h hcond hs => AtRest.session_covers h hcond hs) (by rw [hnew]; nofun) hkeeps hrun
  exact fun a ha _ => (openedFrom hopen).exists_id (hcov a ha)

/-- A log that no process has opened yet. -/
def unopened : AtRest := ⟨.empty, fun _ => 0, []⟩

/-- One call of `compact_below`, from its start to its end. -/
def compactFirst (safeThreshold : Nat) : List CompactAction :=
  [.compactBelow safeThreshold, .scanIndex 0, .listDir 0 .ok, .removeNext 0 .ok, .prune 0]

/-- Two durable appends in two segments, a compaction that removes the first
of them, and a crash. -/
def twoAppendsCompacted : Session :=
  ⟨tinyConfig, twoSegmentRun.map .log ++ compactFirst 1, fun _ => 0, fun _ => 0⟩

theorem ids_not_reused_iff_compacted :
    ∃ r o, run (AtRest.session Crc32.crc32) unopened [twoAppendsCompacted] = some r ∧
      openWithConfig Crc32.crc32 tinyConfig (.directory r.dir) = .ok o ∧
      r.acked = [1, 2] ∧ r.dir.seqs = [2] ∧ FreshIds Crc32.crc32 tinyConfig r o := by
  obtain ⟨r, hr, hacked, hseqs, hfound, o, hopen, -⟩ : ∃ r, run (AtRest.session Crc32.crc32)
      unopened [twoAppendsCompacted] = some r ∧ r.acked = [1, 2] ∧ r.dir.seqs = [2] ∧
        idsFound Crc32.crc32 r.dir.files = [2] ∧
        ∃ o, openWithConfig Crc32.crc32 tinyConfig (.directory r.dir) = .ok o ∧ True := by
    decide +kernel
  have hkeeps : Meets (AtRest.session Crc32.crc32) (KeepsCovered Crc32.crc32) unopened
      [twoAppendsCompacted] := by decide +kernel
  refine ⟨r, o, hr, hopen, hacked, hseqs, (ids_not_reused_iff rfl hr hopen ?_).2 hkeeps⟩
  rw [hfound]
  decide

/-- A durable append that returned, and a crash in the second one, between its
roll and its write: the tail segment is empty. -/
def crashAfterRoll : Session :=
  ⟨tinyConfig, midRollRun.map .log ++ [.log (.writeHeader .ok), .log (.syncHeader .ok)],
    fun _ => 0, fun _ => 0⟩

/-- A call of `compact_below` and a clean stop. -/
def compactAndStop : Session := ⟨tinyConfig, compactFirst 1, fun _ => 64, fun _ => 64⟩

def appendAndStop : Session := ⟨tinyConfig, oneAppendRun.map .log, fun _ => 64, fun _ => 64⟩

/-- The compaction removes the file with the only record, and the next process
starts from id 1 again: two durable appends have returned `Ok` with it. -/
theorem id_reused_after_compaction :
    ∃ r o r', run (AtRest.session Crc32.crc32) unopened [crashAfterRoll, compactAndStop] = some r ∧
      r.acked = [1] ∧ openWithConfig Crc32.crc32 tinyConfig (.directory r.dir) = .ok o ∧
      ¬ FreshIds Crc32.crc32 tinyConfig r o ∧
      r.session Crc32.crc32 appendAndStop = some r' ∧ r'.acked = [1, 1] := by
  obtain ⟨r, hr, hacked, ⟨o, hopen, hnext⟩, r', hr', hacked'⟩ : ∃ r,
      run (AtRest.session Crc32.crc32) unopened [crashAfterRoll, compactAndStop] = some r ∧
        r.acked = [1] ∧
        (∃ o, openWithConfig Crc32.crc32 tinyConfig (.directory r.dir) = .ok o ∧ o.nextId = 1) ∧
        ∃ r', r.session Crc32.crc32 appendAndStop = some r' ∧ r'.acked = [1, 1] := by
    decide +kernel
  refine ⟨r, o, r', hr, hacked, hopen, fun hfresh => ?_, hr', hacked'⟩
  have hlt := hfresh [] _ rfl
    (by simpa [Compacting.start, Opened.start] using openWithConfig_nextId_lt hopen) 1
    (by rw [hacked]; simp)
  replace hlt : 1 < o.nextId := hlt
  omega

end Sessions

end BlipMQ.Wal
