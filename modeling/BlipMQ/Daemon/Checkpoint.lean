import BlipMQ.Core.OnDisk
import BlipMQ.Daemon.Recovery

/-!
# Daemon — replay from a checkpoint

A checkpoint taken earlier in the run, and the log as it is at the end, in
files that hold its records in the order of their ids. The cursors come out
of replay the same with the checkpoint and without it, since every ack entry
it passes over was made before the snapshot. The messages do not:
`snapshot_id` is the least cursor of those who have acked something, and says
nothing about a client that has not.
-/

namespace BlipMQ.Daemon

open BlipMQ.Core

variable {E : Externals} {config : BrokerConfig} {s₁ s₂ : State}

/-- A snapshot is not ahead of the log. -/
theorem snapshotId_lt (h : Sound s₁) : s₁.broker.currentSnapshot.snapshotId < s₁.log.nextId := by
  by_cases hzero : s₁.broker.ackCursors.floor = 0
  · show s₁.broker.ackCursors.floor < s₁.log.nextId
    have := s₁.log.pos
    omega
  · obtain ⟨key, hkey⟩ := MaxMap.exists_lookup_floor hzero
    exact h.acked _ (h.cursor key _ hkey)

theorem replayStart_le (h : Sound s₁) :
    Broker.replayStart (some s₁.broker.currentSnapshot) ≤ s₁.log.nextId :=
  Nat.le_trans (Nat.min_le_left _ _) (snapshotId_lt h)

/-- The start does not saturate: the ack with the least cursor has its entry in
the log, at a higher id. -/
theorem replayStart_eq (h₁ : Sound s₁) (h₂ : Sound s₂) (hlater : Later s₁ s₂)
    (hjournaled : s₂.Journaled) : Broker.replayStart (some s₁.broker.currentSnapshot) =
      s₁.broker.currentSnapshot.snapshotId + 1 := by
  refine Nat.min_eq_left ?_
  by_cases hzero : s₁.broker.ackCursors.floor = 0
  · show s₁.broker.ackCursors.floor + 1 ≤ 2 ^ 64 - 1
    omega
  · obtain ⟨key, hkey⟩ := MaxMap.exists_lookup_floor hzero
    have hmem := hjournaled _ (hlater.acks _ (h₁.cursor key _ hkey))
    obtain ⟨r, hr, hack⟩ := List.mem_filterMap.mp hmem
    have hlt : s₁.broker.ackCursors.floor < r.id := (h₂.entries r hr _ hack).2
    have hid := (s₂.log.bounded r hr).2
    have hmax := s₂.log.nextId_le
    show s₁.broker.ackCursors.floor + 1 ≤ 2 ^ 64 - 1
    omega

/-! ## The cursors -/

/-- An ack entry in front of the start was made before the snapshot. -/
theorem acked_before (h₁ : Sound s₁) (hlater : Later s₁ s₂) {r : Wal.WalRecord}
    (hr : r ∈ s₂.log.records)
    (hskip : ¬ Broker.replayStart (some s₁.broker.currentSnapshot) ≤ r.id) {a : WalAckRecord}
    (ha : ack? r = some a) : a ∈ s₁.acks := by
  have hstart := replayStart_le h₁
  exact (h₁.entries r (hlater.records r hr (by omega)) a ha).1

theorem get_replayCursors_checkpoint (h₁ : Sound s₁) (hlater : Later s₁ s₂)
    (hjournaled : s₂.Journaled) (key : String × String) :
    (Broker.replayCursors s₂.log (some s₁.broker.currentSnapshot)).get key =
      (Broker.replayCursors s₂.log none).get key := by
  have hwith := (@Broker.get_replayCursors_le s₂.log (some s₁.broker.currentSnapshot) key
    _).mp (Nat.le_refl _)
  have hwithout := (@Broker.get_replayCursors_le s₂.log none key _).mp (Nat.le_refl _)
  have hpos : ∀ r ∈ s₂.log.records, Broker.replayStart none ≤ r.id :=
    fun r hr => (s₂.log.bounded r hr).1
  refine Nat.le_antisymm ?_ ?_
  · refine Broker.get_replayCursors_le.mpr ⟨?_, fun r hr _ => hwithout.2 r hr (hpos r hr)⟩
    -- the cursor of the snapshot is an ack, and has its entry in the log
    show s₁.broker.ackCursors.get key ≤ _
    cases hlook : s₁.broker.ackCursors.lookup key with
    | none =>
      rw [MaxMap.get, hlook]
      exact Nat.zero_le _
    | some v =>
      rw [MaxMap.get_of_lookup hlook]
      have hmem := hjournaled _ (hlater.acks _ (h₁.cursor key v hlook))
      obtain ⟨r, hr, hack⟩ := List.mem_filterMap.mp hmem
      exact hwithout.2 r hr (hpos r hr) _ hack rfl
  · refine Broker.get_replayCursors_le.mpr ⟨Nat.zero_le _, fun r hr _ a ha hkey => ?_⟩
    by_cases hstart : Broker.replayStart (some s₁.broker.currentSnapshot) ≤ r.id
    · exact hwith.2 r hr hstart a ha hkey
    · have hraised := (h₁.raised a (acked_before h₁ hlater hr hstart ha)).2
      rw [hkey] at hraised
      exact Nat.le_trans hraised hwith.1

/-- **The cursors come out the same** with the checkpoint and without it. -/
theorem lookup_replayCursors_checkpoint (h₁ : Sound s₁) (hlater : Later s₁ s₂)
    (hjournaled : s₂.Journaled) (key : String × String) :
    (Broker.replayCursors s₂.log (some s₁.broker.currentSnapshot)).lookup key =
      (Broker.replayCursors s₂.log none).lookup key := by
  refine MaxMap.lookup_ext ?_ (get_replayCursors_checkpoint h₁ hlater hjournaled key)
  rw [Broker.isSome_lookup_replayCursors, Broker.isSome_lookup_replayCursors]
  constructor
  · rintro (hseed | ⟨r, hr, -, a, ha, hkey⟩)
    · obtain ⟨v, hv⟩ := Option.isSome_iff_exists.mp hseed
      have hmem := hjournaled _ (hlater.acks _ (h₁.cursor key v hv))
      obtain ⟨r, hr, hack⟩ := List.mem_filterMap.mp hmem
      exact .inr ⟨r, hr, (s₂.log.bounded r hr).1, _, hack, rfl⟩
    · exact .inr ⟨r, hr, (s₂.log.bounded r hr).1, a, ha, hkey⟩
  · rintro (hseed | ⟨r, hr, -, a, ha, hkey⟩)
    · cases hseed
    · by_cases hstart : Broker.replayStart (some s₁.broker.currentSnapshot) ≤ r.id
      · exact .inr ⟨r, hr, hstart, a, ha, hkey⟩
      · have hraised := (h₁.raised a (acked_before h₁ hlater hr hstart ha)).1
        rw [hkey] at hraised
        exact .inl hraised

/-! ## The messages -/

/-- **A checkpoint leaves the outcome of replay as it is, if and only if** every
message it passes over is covered by an ack of each subscriber of its topic. The
records are in the files in the order of their ids: a file in which an append has
overtaken another one is not that of a log. -/
theorem checkpoint_agrees_iff {acts₁ acts₂ : List Action}
    (hrun₁ : run (step E) (start E config) acts₁ = some s₁)
    (hrun₂ : run (step E) s₁ acts₂ = some s₂) (hjournaled : s₂.Journaled)
    {crc : Bytes → UInt32} {index : Wal.Index} {dir : Dir Bytes}
    (hfiles : OnDisk crc index dir s₂.log) (b : Broker) (now : Nat) :
    ∃ b₁ b₂,
      b.replayFromFiles E crc now index dir (some s₁.broker.currentSnapshot) = .ok b₁ ∧
      b.replayFromFiles E crc now index dir none = .ok b₂ ∧
      (Broker.Agrees b₁ b₂ ↔
        ∀ x sub t, b.subscribers.lookup x = some sub → 0 < b.broadcasts t x →
          ∀ p ∈ s₂.log.messagesOn t, p.1 ≤ s₁.broker.currentSnapshot.snapshotId →
            ∃ i, p.1 ≤ i ∧ ⟨sub.clientId, t, i⟩ ∈ s₂.acks) := by
  refine ⟨_, _, hfiles.replayFromFiles .., hfiles.replayFromFiles .., ?_⟩
  have h₁ := sound_of_run hrun₁
  have h₂ : Sound s₂ := run_invariant (fun _ _ _ h hs => h.step hs) h₁ hrun₂
  have hlater := later_of_run hrun₂
  have hcovered : ∀ {c t j}, 0 < j → (j ≤ (Broker.replayCursors s₂.log none).get (c, t) ↔
      ∃ i, j ≤ i ∧ ⟨c, t, i⟩ ∈ s₂.acks) := by
    intro c t j hj
    rw [← Nat.not_lt, cursor_lt_iff h₂ hjournaled hj]
    push Not
    exact exists_congr fun i => and_comm
  rw [← Broker.replayFromWal,
    Broker.replay_agrees_iff (lookup_replayCursors_checkpoint h₁ hlater hjournaled),
    replayStart_eq h₁ h₂ hlater hjournaled]
  simp only [Broker.replayOffers_eq_nil_iff, Nat.lt_succ_iff]
  constructor
  · intro h x sub t hsub hbroadcast p hp hle
    obtain ⟨r, hr, hm, hid, htopic⟩ := Log.mem_messagesOn.mp hp
    have hcursor := h r hr (hid ▸ hle) x p.2 sub hm hsub (htopic ▸ hbroadcast)
    rw [htopic, hid] at hcursor
    exact (hcovered (Log.pos_of_mem_messagesOn hp)).mp hcursor
  · intro h r hr hle x m sub hm hsub hbroadcast
    refine (hcovered (s₂.log.bounded r hr).1).mpr (h x sub m.topic hsub hbroadcast (r.id, m) ?_ hle)
    exact Log.mem_messagesOn.mpr ⟨r, hr, hm, rfl, rfl⟩

/-- The only client acks the first of two messages, and the checkpoint is taken. -/
theorem checkpoint_agrees_after_first_ack :
    ∃ s₁ s₂, run (step plainExternals) (start plainExternals .default)
        (twoDelivered ++ [.ack 1 1]) = some s₁ ∧
      run (step plainExternals) s₁ [.journal 0 false] = some s₂ ∧
      s₁.broker.currentSnapshot.snapshotId = 1 ∧
      ∃ b₁ b₂,
        (resubscribe .default [("c", "t")]).replayFromFiles plainExternals Crc32.crc32 0
          s₂.log.index (s₂.log.dir Crc32.crc32) (some s₁.broker.currentSnapshot) = .ok b₁ ∧
        (resubscribe .default [("c", "t")]).replayFromFiles plainExternals Crc32.crc32 0
          s₂.log.index (s₂.log.dir Crc32.crc32) none = .ok b₂ ∧
        Broker.Agrees b₁ b₂ := by
  obtain ⟨s₁, hs₁, hsnap, s₂, hs₂, hjournaled, hmade, hmessages, hdir, hfits⟩ :
      ∃ s₁, run (step plainExternals) (start plainExternals .default)
          (twoDelivered ++ [.ack 1 1]) = some s₁ ∧
        s₁.broker.currentSnapshot.snapshotId = 1 ∧
        ∃ s₂, run (step plainExternals) s₁ [.journal 0 false] = some s₂ ∧
          s₂.Journaled ∧ s₂.acks = [⟨"c", "t", 1⟩] ∧
          s₂.log.messages = [(1, ⟨"t", .atLeastOnce, [7]⟩), (2, ⟨"t", .atLeastOnce, [8]⟩)] ∧
          (s₂.log.dir Crc32.crc32).files =
            s₂.log.stored.map (Wal.StoredSegment.file Crc32.crc32) ∧
          ∀ r ∈ s₂.log.records, r.Fits := by decide +kernel
  obtain ⟨b₁, b₂, hb₁, hb₂, hiff⟩ := checkpoint_agrees_iff hs₁ hs₂ hjournaled
    ⟨hdir, rfl, hfits⟩ (resubscribe .default [("c", "t")]) 0
  refine ⟨s₁, s₂, hs₁, hs₂, hsnap, b₁, b₂, hb₁, hb₂, hiff.mpr ?_⟩
  intro x sub t hsub _ p hp hle
  obtain ⟨hmem, htopic⟩ := List.mem_filter.mp hp
  have hclient : sub.clientId = "c" := by
    rcases lookup_insert_cases hsub with ⟨-, rfl⟩ | hsub
    · rfl
    · cases hsub
  rw [hmessages] at hmem
  rw [hsnap] at hle
  rcases List.mem_cons.mp hmem with rfl | hmem
  · have htopic : "t" = t := of_decide_eq_true htopic
    exact ⟨1, Nat.le_refl _, by rw [hclient, ← htopic, hmade]; simp⟩
  · rw [List.mem_singleton.mp hmem] at hle
    exact absurd hle (by decide)

/-- Client `B` has a message in its queue when client `A` acks a later one. -/
def oneBehind : List Action :=
  [.subscribe "A" "a" .atLeastOnce none .poll none,
    .subscribe "B" "b" .atLeastOnce none .poll none,
    .append ⟨"b", .atLeastOnce, [7]⟩ false, .fanOut 0 0,
    .append ⟨"a", .atLeastOnce, [8]⟩ false, .fanOut 0 0, .poll 1 0, .ack 1 1, .journal 0 false]

set_option synthInstance.maxSize 256 in
/-- With the checkpoint, replay does not return the message of `B`. -/
theorem checkpoint_hides_unacked_message :
    ∃ s, run (step plainExternals) (start plainExternals .default) oneBehind = some s ∧
      s.Journaled ∧
      received ((resubscribe .default [("A", "a"), ("B", "b")]).replayFromWal
        plainExternals 0 s.log) 2 = some [(some 1, .atLeastOnce, [7])] ∧
      received ((resubscribe .default [("A", "a"), ("B", "b")]).replayFromWalWithCheckpoint
        plainExternals 0 s.log (some s.broker.currentSnapshot)) 2 = some [] := by
  decide +kernel

end BlipMQ.Daemon
