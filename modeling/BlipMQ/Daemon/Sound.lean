import BlipMQ.Daemon.Session

/-!
# Daemon — what every reachable state satisfies

The cursors of a process that started on a new log are its acks and nothing
else, the ack entries of the log are acks that were made, each behind the
message it acks, and no queue, task or cursor is ahead of the log.
-/

namespace BlipMQ.Daemon

open BlipMQ.Core
open Wal (WalRecord)

structure Sound (s : State) : Prop where
  queues : s.broker.WalIds (· < s.log.nextId)
  publishing : ∀ p ∈ s.publishing, p.walId < s.log.nextId
  acked : ∀ a ∈ s.acks, a.ackedWalId < s.log.nextId
  journaling : ∀ a ∈ s.journaling, a ∈ s.acks
  entries : ∀ r ∈ s.log.records, ∀ a, ack? r = some a → a ∈ s.acks ∧ a.ackedWalId < r.id
  cursor : ∀ key v, s.broker.ackCursors.lookup key = some v → ⟨key.1, key.2, v⟩ ∈ s.acks
  raised : ∀ a ∈ s.acks, (s.broker.ackCursors.lookup (a.clientId, a.topic)).isSome ∧
    a.ackedWalId ≤ s.broker.ackCursors.get (a.clientId, a.topic)

variable {E : Externals} {s s' : State} {a : Action}

theorem Sound.start (E : Externals) (config : BrokerConfig) : Sound (start E config) where
  queues := fun _ _ h => (nomatch h)
  publishing := nofun
  acked := nofun
  journaling := nofun
  entries := nofun
  cursor := fun _ _ h => (nomatch h)
  raised := nofun

/-- Steps that make no ack only have to keep the ids below the log's next one. -/
theorem Sound.of_le {broker : Broker} {log : Log} {publishing : List Publication}
    {journaling : List WalAckRecord} {task : CheckpointTask} {checkpoint : Option Bytes}
    (h : Sound s) (hnext : s.log.nextId ≤ log.nextId) (hqueues : broker.WalIds (· < log.nextId))
    (hcursors : broker.ackCursors = s.broker.ackCursors)
    (hpublishing : ∀ p ∈ publishing, p ∈ s.publishing ∨ p.walId < log.nextId)
    (hjournaling : ∀ a ∈ journaling, a ∈ s.journaling)
    (hentries : ∀ r ∈ log.records, ∀ a, ack? r = some a → a ∈ s.acks ∧ a.ackedWalId < r.id) :
    Sound ⟨broker, log, publishing, journaling, task, checkpoint, s.acks⟩ where
  queues := hqueues
  publishing := fun p hp => (hpublishing p hp).elim
    (fun hold => Nat.lt_of_lt_of_le (h.publishing p hold) hnext) id
  acked := fun a ha => Nat.lt_of_lt_of_le (h.acked a ha) hnext
  journaling := fun a ha => h.journaling a (hjournaling a ha)
  entries := hentries
  cursor := fun key v hv => h.cursor key v (hcursors ▸ hv)
  raised := fun a ha => hcursors ▸ h.raised a ha

theorem Sound.queues_le (h : Sound s) {n : Nat} (hnext : s.log.nextId ≤ n) :
    s.broker.WalIds (· < n) :=
  h.queues.mono fun _ hi => Nat.lt_of_lt_of_le hi hnext

/-- A refused append may take a task with it. -/
theorem Sound.skipped {log : Log} {journaling : List WalAckRecord} (h : Sound s)
    (hskip : s.log.skipId = some log) (hj : ∀ a ∈ journaling, a ∈ s.journaling) :
    Sound { s with log := log, journaling := journaling } := by
  obtain ⟨hrecords, hnext⟩ := Log.skipId_spec hskip
  have hle : s.log.nextId ≤ log.nextId := by omega
  refine h.of_le hle (h.queues_le hle) rfl (fun _ hp => .inl hp) hj ?_
  rw [hrecords]
  exact h.entries

/-- An ack raises the cursor of its key and nothing else. -/
theorem Sound.acks {broker : Broker} {x tag : Nat} {a : WalAckRecord}
    {journaling : List WalAckRecord} (h : Sound s) (hack : s.broker.Acks broker x tag a)
    (hj : ∀ a' ∈ journaling, a' ∈ s.journaling ∨ a' = a) :
    Sound { s with broker := broker, acks := s.acks ++ [a], journaling := journaling } := by
  have hold : ∀ a' ∈ s.acks, a' ∈ s.acks ++ [a] := fun a' ha' => List.mem_append_left _ ha'
  have hnew : a ∈ s.acks ++ [a] := by simp
  refine ⟨hack.walIds _ h.queues, h.publishing, ?_, ?_, ?_, ?_, ?_⟩
  · obtain ⟨subRef, sub, e, -, hsub, he, hid, -⟩ := hack.source
    exact forall_mem_concat h.acked ((h.queues x sub hsub).inflight tag e _ he hid)
  · intro a' ha'
    rcases hj a' ha' with ha' | rfl
    · exact hold a' (h.journaling a' ha')
    · exact hnew
  · intro r hr a' ha'
    obtain ⟨hmem, hlt⟩ := h.entries r hr a' ha'
    exact ⟨hold a' hmem, hlt⟩
  · intro key v hv
    replace hv : broker.ackCursors.lookup key = some v := hv
    rw [hack.ackCursors] at hv
    rcases MaxMap.lookup_raise_cases hv with hv | heq
    · exact hold _ (h.cursor key v hv)
    · cases heq
      exact hnew
  · intro a' ha'
    show (broker.ackCursors.lookup _).isSome ∧ _ ≤ broker.ackCursors.get _
    rw [hack.ackCursors, MaxMap.isSome_lookup_raise, MaxMap.get_raise]
    rcases List.mem_append.mp ha' with ha' | ha'
    · obtain ⟨hsome, hle⟩ := h.raised a' ha'
      refine ⟨.inl hsome, ?_⟩
      split
      · rename_i hkey
        exact Nat.le_trans hle (hkey ▸ Nat.le_max_left _ _)
      · exact hle
    · rw [List.mem_singleton.mp ha', if_pos rfl]
      exact ⟨.inr rfl, Nat.le_max_right _ _⟩

theorem Sound.step (h : Sound s) (hs : Daemon.step E s a = some s') : Sound s' := by
  cases step_effect hs with
  | quiet hq _ =>
    exact h.of_le (Nat.le_refl _) (hq.walIds _ h.queues) hq.ackCursors (fun _ hp => .inl hp)
      (fun _ ha => ha) h.entries
  | subscribed _ hsub =>
    exact h.of_le (Nat.le_refl _) (hsub.walIds _ h.queues) hsub.ackCursors (fun _ hp => .inl hp)
      (fun _ ha => ha) h.entries
  | skipped hskip => exact h.skipped hskip fun _ ha => ha
  | refused hskip => exact h.skipped hskip fun _ ha => List.mem_of_mem_eraseIdx ha
  | @appended _ log message roll payload hencode happend =>
    obtain ⟨hrecords, hnext⟩ := Log.append_spec happend
    have hle : s.log.nextId ≤ log.nextId := by omega
    refine h.of_le hle (h.queues_le hle) rfl ?_ (fun _ ha => ha) ?_
    · exact forall_mem_concat (fun _ hp => .inl hp)
        (.inr (show s.log.nextId < log.nextId by omega))
    · intro r hr a ha
      rw [hrecords] at hr
      rcases List.mem_append.mp hr with hr | hr
      · exact h.entries r hr a ha
      · -- a message is not an ack entry
        have hnone : ack? ⟨s.log.nextId, payload⟩ = none := ack?_of_encode_message hencode
        rw [List.mem_singleton.mp hr, hnone] at ha
        cases ha
  | fannedOut hp hpub =>
    refine h.of_le (Nat.le_refl _) (hpub.walIds _ h.queues ?_) hpub.ackCursors
      (fun _ hq => .inl (List.mem_of_mem_eraseIdx hq)) (fun _ ha => ha) h.entries
    intro i hi
    cases hi
    exact h.publishing _ (List.mem_of_getElem? hp)
  | acked hack hj => exact h.acks hack hj
  | @journaled i roll a payload log ha hencode happend =>
    obtain ⟨hrecords, hnext⟩ := Log.append_spec happend
    have hle : s.log.nextId ≤ log.nextId := by omega
    have hmem : a ∈ s.acks := h.journaling a (List.mem_of_getElem? ha)
    have hsome : ack? ⟨s.log.nextId, payload⟩ = some a :=
      ack?_of_encode hencode (Nat.lt_of_lt_of_le (h.acked a hmem) s.log.nextId_le)
    refine h.of_le hle (h.queues_le hle) rfl (fun _ hp => .inl hp)
      (fun _ ha' => List.mem_of_mem_eraseIdx ha') ?_
    intro r hr a' ha'
    rw [hrecords] at hr
    rcases List.mem_append.mp hr with hr | hr
    · exact h.entries r hr a' ha'
    · rw [List.mem_singleton.mp hr, hsome] at ha'
      cases ha'
      rw [List.mem_singleton.mp hr]
      exact ⟨hmem, h.acked a hmem⟩
  | compacted hpos =>
    refine h.of_le (Nat.le_refl _) h.queues rfl (fun _ hp => .inl hp) (fun _ ha => ha) ?_
    intro r hr
    exact h.entries r ((Log.compactBelow_records ..).subset hr)

theorem sound_of_run {config : BrokerConfig} {acts : List Action}
    (hrun : run (step E) (start E config) acts = some s) : Sound s :=
  run_invariant (fun _ _ _ h hs => h.step hs) (.start E config) hrun

/-! ## What the log knows of the acks -/

/-- Every ack of a logged message has its entry in the log. -/
def State.Journaled (s : State) : Prop := ∀ a ∈ s.acks, a ∈ s.log.acks

instance State.Journaled.decidable (s : State) : Decidable s.Journaled :=
  inferInstanceAs (Decidable (∀ a ∈ s.acks, a ∈ s.log.acks))

/-- A record is beyond a client's cursor if it is beyond everything the client acked. -/
theorem cursor_lt_iff (hsound : Sound s) (hjournaled : s.Journaled) {c t : String} {j : Nat}
    (hj : 0 < j) : (Broker.replayCursors s.log none).get (c, t) < j ↔
      ∀ i, ⟨c, t, i⟩ ∈ s.acks → i < j := by
  have hstart : ∀ r ∈ s.log.records, Broker.replayStart none ≤ r.id :=
    fun r hr => (s.log.bounded r hr).1
  have hle := @Broker.get_replayCursors_le s.log none (c, t) (j - 1)
  constructor
  · intro hlt i hi
    obtain ⟨r, hr, hack⟩ := List.mem_filterMap.mp (hjournaled _ hi)
    have := (hle.mp (by omega)).2 r hr (hstart r hr) _ hack rfl
    replace this : i ≤ j - 1 := this
    omega
  · intro h
    have hcursor := hle.mpr ⟨Nat.zero_le _, fun r hr _ a ha hkey => by
      cases hkey
      have := h a.ackedWalId (hsound.entries r hr a ha).1
      omega⟩
    omega

/-! ## From one state to a later one -/

/-- Acks stay, and the log has no record of before that it did not have then. -/
structure Later (s s' : State) : Prop where
  nextId : s.log.nextId ≤ s'.log.nextId
  records : ∀ r ∈ s'.log.records, r.id < s.log.nextId → r ∈ s.log.records
  acks : ∀ a ∈ s.acks, a ∈ s'.acks

theorem Later.refl (s : State) : Later s s := ⟨Nat.le_refl _, fun _ hr _ => hr, fun _ ha => ha⟩

/-- A new record comes under an id that was not given away before. -/
theorem Later.append {s₀ : State} {log : Log} {roll : Bool} {payload : Bytes} (h : Later s₀ s)
    (happend : s.log.append roll payload = some log) : s₀.log.nextId ≤ log.nextId ∧
      ∀ r ∈ log.records, r.id < s₀.log.nextId → r ∈ s₀.log.records := by
  obtain ⟨hrecords, hnext⟩ := Log.append_spec happend
  have hle := h.nextId
  refine ⟨by omega, fun r hr hlt => ?_⟩
  rw [hrecords] at hr
  rcases List.mem_append.mp hr with hr | hr
  · exact h.records r hr hlt
  · rw [List.mem_singleton.mp hr] at hlt
    replace hlt : s.log.nextId < s₀.log.nextId := hlt
    omega

theorem Later.skip {s₀ : State} {log : Log} (h : Later s₀ s) (hskip : s.log.skipId = some log) :
    s₀.log.nextId ≤ log.nextId ∧
      ∀ r ∈ log.records, r.id < s₀.log.nextId → r ∈ s₀.log.records := by
  obtain ⟨hrecords, hnext⟩ := Log.skipId_spec hskip
  rw [hrecords, hnext]
  exact ⟨Nat.le_succ_of_le h.nextId, h.records⟩

theorem Later.step {s₀ : State} (h : Later s₀ s) (hs : Daemon.step E s a = some s') :
    Later s₀ s' := by
  cases step_effect hs with
  | quiet _ _ => exact ⟨h.nextId, h.records, h.acks⟩
  | subscribed _ _ => exact ⟨h.nextId, h.records, h.acks⟩
  | fannedOut _ _ => exact ⟨h.nextId, h.records, h.acks⟩
  | skipped hskip => exact ⟨(h.skip hskip).1, (h.skip hskip).2, h.acks⟩
  | refused hskip => exact ⟨(h.skip hskip).1, (h.skip hskip).2, h.acks⟩
  | appended _ happend => exact ⟨(h.append happend).1, (h.append happend).2, h.acks⟩
  | journaled _ _ happend => exact ⟨(h.append happend).1, (h.append happend).2, h.acks⟩
  | acked _ _ => exact ⟨h.nextId, h.records, fun a ha => List.mem_append_left _ (h.acks a ha)⟩
  | compacted _ =>
    exact ⟨h.nextId, fun r hr => h.records r ((Log.compactBelow_records ..).subset hr), h.acks⟩

theorem later_of_run {acts : List Action} (hrun : run (step E) s acts = some s') : Later s s' :=
  run_invariant (fun _ _ _ h hs => h.step hs) (.refl s) hrun

end BlipMQ.Daemon
