import BlipMQ.Core.CheckpointFile
import BlipMQ.Daemon.Checkpoint

/-!
# Daemon — cursors after a crash

Compaction takes whole segments out of the log, and the entries of acks lie
in them like all other records. What is never taken out is the entry of the
ack that a cursor stands for: its id is beyond the cursor, and the threshold
is not. The checkpoint on disk may be older than the threshold. Its cursors
were acks when it was written, and entries in front of its start were made
before that.
-/

namespace BlipMQ.Daemon

open BlipMQ.Core

/-! ## Checkpoints and compactions at any time -/

/-- The checkpoint task, as far in its round as the step needs it. -/
def State.ready (s : State) : Action → State
  | .writeCheckpoint _ => { s with task := .waiting }
  | .compactBelow _ => { s with task := .written }
  | _ => s

/-- The steps of a process with checkpoints and compactions in any order, each as
often as one likes. -/
def freeStep (E : Externals) (s : State) (a : Action) : Option State := step E (s.ready a) a

section Kept

variable {E : Externals} {s s' : State} {a : Action}

/-- The checkpoint task is the only part of the state that is set up. -/
theorem ready_eq (s : State) (a : Action) : ∃ task, s.ready a = { s with task := task } := by
  cases a <;> exact ⟨_, rfl⟩

theorem Sound.ready (h : Sound s) (a : Action) : Sound (s.ready a) := by
  obtain ⟨task, hready⟩ := ready_eq s a
  rw [hready]
  exact ⟨h.queues, h.publishing, h.acked, h.journaling, h.entries, h.cursor, h.raised⟩

theorem Later.ready {s₀ : State} (h : Later s₀ s) (a : Action) : Later s₀ (s.ready a) := by
  obtain ⟨task, hready⟩ := ready_eq s a
  rw [hready]
  exact ⟨h.nextId, h.records, h.acks⟩

/-! ## The entry behind each cursor -/

/-- Every cursor is an ack whose entry is in the log or is still to be journaled. -/
def Kept (s : State) : Prop :=
  ∀ key v, s.broker.ackCursors.lookup key = some v →
    (∃ payload, (WalEntry.ack ⟨key.1, key.2, v⟩).encode = .ok payload) →
    ⟨key.1, key.2, v⟩ ∈ s.journaling ∨ ⟨key.1, key.2, v⟩ ∈ s.log.acks

/-- Steps that raise no cursor only have to keep the entries and the tasks. -/
theorem Kept.of_eq (h : Kept s) (hcursors : s'.broker.ackCursors = s.broker.ackCursors)
    (hentries : ∀ a, s.broker.ackCursors.lookup (a.clientId, a.topic) = some a.ackedWalId →
      a ∈ s.journaling ∨ a ∈ s.log.acks → a ∈ s'.journaling ∨ a ∈ s'.log.acks) : Kept s' := by
  intro key v hv hencode
  rw [hcursors] at hv
  exact hentries _ hv (h key v hv hencode)

theorem acks_append {log log' : Log} {roll : Bool} {payload : Bytes}
    (happend : log.append roll payload = some log') :
    log'.acks = log.acks ++ (ack? ⟨log.nextId, payload⟩).toList := by
  unfold Log.acks
  rw [(Log.append_spec happend).1, List.filterMap_append]
  cases h : ack? ⟨log.nextId, payload⟩ <;> simp [h]

/-- **Compaction spares the entry behind a cursor.** -/
theorem mem_acks_compactBelow (hsound : Sound s) {a : WalAckRecord} {limit : Nat}
    (hcursor : s.broker.ackCursors.lookup (a.clientId, a.topic) = some a.ackedWalId)
    (ha : a ∈ s.log.acks) :
    a ∈ (s.log.compactBelow s.broker.currentSnapshot.snapshotId limit).acks := by
  obtain ⟨r, hr, hack⟩ := List.mem_filterMap.mp ha
  refine List.mem_filterMap.mpr ⟨r, ?_, hack⟩
  obtain ⟨seg, hseg, hr⟩ := List.mem_flatMap.mp hr
  refine List.mem_flatMap.mpr ⟨seg, ?_, hr⟩
  by_contra hgone
  -- the record is at or below the least cursor, and beyond the cursor it raised
  have hle : r.id ≤ s.broker.ackCursors.floor :=
    Log.le_of_mem_compacted (Log.mem_compacted hseg hgone) hr
  have hfloor := MaxMap.floor_le hcursor
  have hlt := (hsound.entries r (List.mem_flatMap.mpr ⟨seg, hseg, hr⟩) a hack).2
  omega

theorem Kept.ack (h : Kept s) (x tag : Nat) : Kept (stepAck s x tag) := by
  unfold stepAck
  split
  · exact h
  · rename_i broker hack
    exact h.of_eq (Broker.ack_quiet hack).ackCursors fun _ _ ha => ha
  · rename_i broker a hack
    intro key v hv hencode
    replace hv : broker.ackCursors.lookup key = some v := hv
    rw [(Broker.ack_spec hack).ackCursors] at hv
    dsimp only
    rcases MaxMap.lookup_raise_cases hv with hv | heq
    · rcases h key v hv hencode with hj | hlog
      · refine .inl ?_
        split
        · exact List.mem_append_left _ hj
        · exact hj
      · exact .inr hlog
    · cases heq
      obtain ⟨payload, hencode⟩ := hencode
      rw [hencode]
      exact .inl (List.mem_append_right _ (List.mem_singleton_self _))

theorem Kept.of_effect (h : Kept s) (hsound : Sound s) (he : Effect E s a s')
    (hack : ∀ x tag, a ≠ .ack x tag) (hrefused : ∀ i, a ≠ .journalRefused i) : Kept s' := by
  cases he with
  | quiet hq _ => exact h.of_eq hq.ackCursors fun _ _ ha => ha
  | subscribed _ hsub => exact h.of_eq hsub.ackCursors fun _ _ ha => ha
  | fannedOut _ hpub => exact h.of_eq hpub.ackCursors fun _ _ ha => ha
  | acked => exact absurd rfl (hack _ _)
  | refused => exact absurd rfl (hrefused _)
  | skipped hskip =>
    refine h.of_eq rfl fun a _ ha => ha.imp_right fun hlog => ?_
    rw [Log.acks, (Log.skipId_spec hskip).1]
    exact hlog
  | appended _ happend =>
    refine h.of_eq rfl fun a _ ha => ha.imp_right fun hlog => ?_
    rw [acks_append happend]
    exact List.mem_append_left _ hlog
  | @journaled i roll a payload log ha hencode happend =>
    have hmem : a ∈ s.acks := hsound.journaling a (List.mem_of_getElem? ha)
    have hsome : ack? ⟨s.log.nextId, payload⟩ = some a :=
      ack?_of_encode hencode (Nat.lt_of_lt_of_le (hsound.acked a hmem) s.log.nextId_le)
    have hacks : log.acks = s.log.acks ++ [a] := by
      rw [acks_append happend, hsome]
      rfl
    refine h.of_eq rfl fun a' _ ha' => ?_
    show a' ∈ s.journaling.eraseIdx i ∨ a' ∈ log.acks
    rw [hacks]
    rcases ha' with hj | hlog
    · obtain ⟨j, hj⟩ := List.mem_iff_getElem?.mp hj
      by_cases hji : j = i
      · rw [hji, ha] at hj
        cases hj
        exact .inr (List.mem_append_right _ (List.mem_singleton_self _))
      · exact .inl (List.mem_eraseIdx_iff_getElem?.mpr ⟨j, hji, hj⟩)
    · exact .inr (List.mem_append_left _ hlog)
  | compacted _ =>
    exact h.of_eq rfl fun a hcursor ha => ha.imp_right (mem_acks_compactBelow hsound hcursor)

theorem Kept.step (h : Kept s) (hsound : Sound s) (hrefused : ∀ i, a ≠ .journalRefused i)
    (hs : Daemon.step E s a = some s') : Kept s' := by
  cases a with
  | ack x tag =>
    cases hs
    exact h.ack x tag
  | _ => exact h.of_effect hsound (step_effect hs) (by simp) hrefused

/-! ## The checkpoint on disk -/

/-- The file is the snapshot of an earlier state. -/
def Snapshotted (E : Externals) (s : State) : Prop :=
  ∀ bytes, s.checkpoint = some bytes →
    ∃ s₀, Sound s₀ ∧ Later s₀ s ∧ s₀.broker.currentSnapshot.encode E = .ok bytes

theorem Snapshotted.step (h : Snapshotted E s) (hsound : Sound s)
    (hs : Daemon.step E s a = some s') : Snapshotted E s' := by
  have hlater : ∀ {s₀}, Later s₀ s → Later s₀ s' := fun h₀ => h₀.step hs
  have hsame : s'.checkpoint = s.checkpoint → Snapshotted E s' := by
    intro heq bytes hbytes
    rw [heq] at hbytes
    obtain ⟨s₀, hsound₀, h₀, hencode⟩ := h bytes hbytes
    exact ⟨s₀, hsound₀, hlater h₀, hencode⟩
  cases step_effect hs with
  | quiet _ hc =>
    rcases hc with rfl | ⟨bytes, rfl, hencode⟩
    · exact hsame rfl
    · intro bytes' hbytes'
      cases hbytes'
      exact ⟨s, hsound, hlater (.refl s), hencode⟩
  | subscribed | skipped | refused | appended | fannedOut | acked | journaled | compacted =>
    exact hsame rfl

/-! ## Runs -/

/-- What holds in every state of a run with free checkpoints and compactions, as long
as no journaling is refused. -/
structure Recoverable (E : Externals) (s : State) : Prop where
  sound : Sound s
  kept : Kept s
  snapshotted : Snapshotted E s

theorem Recoverable.start (E : Externals) (config : BrokerConfig) :
    Recoverable E (start E config) where
  sound := .start E config
  kept _ _ hv := by cases hv
  snapshotted _ hbytes := by cases hbytes

theorem Recoverable.step (h : Recoverable E s) (hrefused : ∀ i, a ≠ .journalRefused i)
    (hs : freeStep E s a = some s') : Recoverable E s' := by
  obtain ⟨task, hready⟩ := ready_eq s a
  have hkept : Kept (s.ready a) := by
    rw [hready]
    exact h.kept
  have hsnapshotted : Snapshotted E (s.ready a) := by
    intro bytes hbytes
    rw [hready] at hbytes
    obtain ⟨s₀, hsound₀, hlater, hencode⟩ := h.snapshotted bytes hbytes
    exact ⟨s₀, hsound₀, hlater.ready a, hencode⟩
  have hsound := h.sound.ready a
  exact ⟨hsound.step hs, hkept.step hsound hrefused hs, hsnapshotted.step hsound hs⟩

/-! ## Replay -/

/-- The checkpoint, if there is one, holds the snapshot of an earlier state. -/
def Earlier (s : State) (checkpoint : Option CheckpointSnapshot) : Prop :=
  ∀ snap, checkpoint = some snap →
    ∃ s₀, Sound s₀ ∧ Later s₀ s ∧ s₀.broker.currentSnapshot.Same snap

section Earlier

variable {checkpoint : Option CheckpointSnapshot} {key : String × String}

/-- Its cursors are acks. -/
theorem Earlier.acked (h : Earlier s checkpoint) {v : Nat}
    (hv : (Broker.seedCursors checkpoint).lookup key = some v) : ⟨key.1, key.2, v⟩ ∈ s.acks := by
  cases checkpoint with
  | none => cases hv
  | some snap =>
    obtain ⟨s₀, hsound₀, hlater, hsame⟩ := h snap rfl
    have hv₀ : s₀.broker.ackCursors.lookup key = some v := (hsame.cursors key).symm.trans hv
    exact hlater.acks _ (hsound₀.cursor key v hv₀)

/-- An entry that is not read is covered by it. -/
theorem Earlier.covers (h : Earlier s checkpoint) {r : Wal.WalRecord} (hr : r ∈ s.log.records)
    (hskip : ¬ Broker.replayStart checkpoint ≤ r.id) {a : WalAckRecord} (ha : ack? r = some a) :
    ((Broker.seedCursors checkpoint).lookup (a.clientId, a.topic)).isSome ∧
      a.ackedWalId ≤ (Broker.seedCursors checkpoint).get (a.clientId, a.topic) := by
  cases checkpoint with
  | none => exact absurd (s.log.bounded r hr).1 hskip
  | some snap =>
    obtain ⟨s₀, hsound₀, hlater, hsame⟩ := h snap rfl
    have hstart : Broker.replayStart (some snap) =
        Broker.replayStart (some s₀.broker.currentSnapshot) := by
      rw [Broker.replayStart, Broker.replayStart, hsame.snapshotId]
    rw [hstart] at hskip
    have hraised := hsound₀.raised a (acked_before hsound₀ hlater hr hskip ha)
    have hcursors : (Broker.seedCursors (some snap)).lookup (a.clientId, a.topic) =
        s₀.broker.ackCursors.lookup (a.clientId, a.topic) := hsame.cursors _
    unfold MaxMap.get at hraised ⊢
    rwa [hcursors]

/-- **Replay rebuilds the cursors**, from any snapshot of an earlier state and from
none. -/
theorem lookup_replayCursors_of_kept (hsound : Sound s)
    (hkept : ∀ key v, s.broker.ackCursors.lookup key = some v →
      ⟨key.1, key.2, v⟩ ∈ s.log.acks)
    (hearlier : Earlier s checkpoint) (key : String × String) :
    (Broker.replayCursors s.log checkpoint).lookup key = s.broker.ackCursors.lookup key := by
  refine MaxMap.lookup_ext ?_ (Nat.le_antisymm ?_ ?_)
  · rw [Broker.isSome_lookup_replayCursors]
    constructor
    · rintro (hsome | ⟨r, hr, -, a, ha, rfl⟩)
      · obtain ⟨v, hv⟩ := Option.isSome_iff_exists.mp hsome
        exact (hsound.raised _ (hearlier.acked hv)).1
      · exact (hsound.raised a (hsound.entries r hr a ha).1).1
    · intro hsome
      obtain ⟨v, hv⟩ := Option.isSome_iff_exists.mp hsome
      obtain ⟨r, hr, ha⟩ := List.mem_filterMap.mp (hkept key v hv)
      by_cases hstart : Broker.replayStart checkpoint ≤ r.id
      · exact .inr ⟨r, hr, hstart, _, ha, rfl⟩
      · exact .inl (hearlier.covers hr hstart ha).1
  -- what is raised was acked
  · refine Broker.get_replayCursors_le.mpr ⟨?_, fun r hr _ a ha hkey => ?_⟩
    · exact MaxMap.get_le fun v hv => (hsound.raised _ (hearlier.acked hv)).2
    · have hraised := (hsound.raised a (hsound.entries r hr a ha).1).2
      rwa [hkey] at hraised
  -- the ack of the cursor is read or covered
  · refine MaxMap.get_le fun v hv => ?_
    obtain ⟨r, hr, ha⟩ := List.mem_filterMap.mp (hkept key v hv)
    have hread := (@Broker.get_replayCursors_le s.log checkpoint key _).mp (Nat.le_refl _)
    by_cases hstart : Broker.replayStart checkpoint ≤ r.id
    · exact hread.2 r hr hstart _ ha rfl
    · exact Nat.le_trans (hearlier.covers hr hstart ha).2 hread.1

end Earlier

/-- The file of an earlier state is read back as its snapshot. -/
theorem Snapshotted.load (h : Snapshotted E s) :
    ∃ loaded, CheckpointSnapshot.loadFrom E s.checkpoint = .ok loaded ∧ Earlier s loaded := by
  cases hc : s.checkpoint with
  | none => exact ⟨none, rfl, fun _ hnone => by cases hnone⟩
  | some bytes =>
    obtain ⟨s₀, hsound₀, hlater, hencode⟩ := h bytes hc
    have hid : s₀.broker.currentSnapshot.snapshotId < 2 ^ 64 :=
      Nat.lt_of_lt_of_le (snapshotId_lt hsound₀) s₀.log.nextId_le
    have hv : ∀ e ∈ s₀.broker.currentSnapshot.cursors.pairs, e.2 < 2 ^ 64 := by
      intro e he
      have hack := hsound₀.acked _ (hsound₀.cursor e.1 e.2 (MaxMap.mem_pairs.mp he))
      exact Nat.lt_of_lt_of_le hack s₀.log.nextId_le
    obtain ⟨snap, hdecode, hsame⟩ := CheckpointSnapshot.decode_encode hencode hid hv
    refine ⟨some snap, ?_, fun snap' hsnap' => ?_⟩
    · rw [CheckpointSnapshot.loadFrom, hdecode]
      rfl
    · cases hsnap'
      exact ⟨s₀, hsound₀, hlater, hsame⟩

theorem ackCursors_replay {b : Broker} (hfresh : b.ackCursors = ∅) (now : Nat) (log : Log)
    (checkpoint : Option CheckpointSnapshot) (key : String × String) :
    (b.replayFromWalWithCheckpoint E now log checkpoint).ackCursors.lookup key =
      (Broker.replayCursors log checkpoint).lookup key := by
  obtain ⟨b₁, -, heq⟩ := Broker.replay_served E now log b checkpoint
  rw [heq]
  show (b.ackCursors.raiseAll _).lookup key = _
  rw [hfresh, MaxMap.lookup_raiseAll_empty]

end Kept

/-- **Cursors survive a crash.** After every run of a process on a new log, with
checkpoints and compactions at any time, in which every ack has been journaled:
a new broker that replays the log, from the checkpoint on disk or from none,
has for every key the cursor that the old one had. -/
theorem cursors_survive_crash {E : Externals} {config : BrokerConfig} {acts : List Action}
    {s : State} (hrun : run (freeStep E) (start E config) acts = some s)
    (hwritten : s.journaling = []) (hrefused : ∀ a ∈ acts, ∀ i, a ≠ .journalRefused i)
    (hencodable : ∀ a ∈ s.acks, ∃ payload, (WalEntry.ack a).encode = .ok payload)
    (b : Broker) (hfresh : b.ackCursors = ∅) (now : Nat) :
    ∃ loaded, CheckpointSnapshot.loadFrom E s.checkpoint = .ok loaded ∧
      ∀ key,
        (b.replayFromWalWithCheckpoint E now s.log loaded).ackCursors.lookup key =
          s.broker.ackCursors.lookup key ∧
        (b.replayFromWal E now s.log).ackCursors.lookup key = s.broker.ackCursors.lookup key := by
  have h : Recoverable E s := run_invariant_of_meets (fun _ _ _ h hrefused hs => h.step hrefused hs)
    (.start E config) (meets_of_forall _ hrefused) hrun
  have hkept : ∀ key v, s.broker.ackCursors.lookup key = some v →
      ⟨key.1, key.2, v⟩ ∈ s.log.acks := by
    intro key v hv
    have hentry := h.kept key v hv (hencodable _ (h.sound.cursor key v hv))
    rw [hwritten] at hentry
    exact hentry.resolve_left List.not_mem_nil
  obtain ⟨loaded, hload, hearlier⟩ := h.snapshotted.load
  refine ⟨loaded, hload, fun key => ⟨?_, ?_⟩⟩
  · rw [ackCursors_replay hfresh]
    exact lookup_replayCursors_of_kept h.sound hkept hearlier key
  · rw [Broker.replayFromWal, ackCursors_replay hfresh]
    exact lookup_replayCursors_of_kept h.sound hkept (fun _ hnone => by cases hnone) key

/-- The checkpoint has the cursor 1. Then the second message is acked, and a
compaction below 2 removes the segment with both messages. -/
theorem cursors_survive_crash_compacted :
    ∃ s, run (freeStep plainExternals) (start plainExternals .default)
        (twoDelivered ++ [.ack 1 1, .journal 0 true, .writeCheckpoint .ok, .ack 1 2,
          .journal 0 false, .compactBelow 1]) = some s ∧
      s.log.records.map Wal.WalRecord.id = [3, 4] ∧ s.checkpoint.isSome = true ∧
      ∃ loaded, CheckpointSnapshot.loadFrom plainExternals s.checkpoint = .ok loaded ∧
        ((Broker.new .default).replayFromWalWithCheckpoint plainExternals 0 s.log
          loaded).ackCursors.lookup ("c", "t") = some 2 := by
  obtain ⟨s, hs, hrecords, hcheckpoint, hwritten, hacks, hcursor⟩ :
      ∃ s, run (freeStep plainExternals) (start plainExternals .default)
          (twoDelivered ++ [.ack 1 1, .journal 0 true, .writeCheckpoint .ok, .ack 1 2,
            .journal 0 false, .compactBelow 1]) = some s ∧
        s.log.records.map Wal.WalRecord.id = [3, 4] ∧ s.checkpoint.isSome = true ∧
        s.journaling = [] ∧ s.acks = [⟨"c", "t", 1⟩, ⟨"c", "t", 2⟩] ∧
        s.broker.ackCursors.lookup ("c", "t") = some 2 := by decide +kernel
  have hencodable : ∀ a ∈ s.acks, ∃ payload, (WalEntry.ack a).encode = .ok payload := by
    rw [hacks]
    intro a ha
    rcases List.mem_pair.mp ha with rfl | rfl <;> exact ⟨_, rfl⟩
  obtain ⟨loaded, hload, hsame⟩ :=
    cursors_survive_crash hs hwritten (by simp [twoDelivered]) hencodable (.new .default) rfl 0
  exact ⟨s, hs, hrecords, hcheckpoint, loaded, hload, (hsame _).1.trans hcursor⟩

end BlipMQ.Daemon
