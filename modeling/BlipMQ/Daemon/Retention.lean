import BlipMQ.Daemon.WriteAhead
import BlipMQ.Wal.Compaction

/-!
# Daemon — what compaction removes

The rounds of the checkpoint task beside the clients, the journaling of acks
and the writer. A round takes its threshold from the cursors and then calls
`compact_below`, whose load, scan, listing and removals are steps of their
own. (The checkpoint it writes first is read by nobody before the next start.)

The threshold is the least cursor, and a cursor is the highest id its
consumer has acked. A message below the threshold is therefore done with if
consumers ack in order, if everyone with something pending below the
threshold has a cursor, and if no publish is still on its way to the
subscribers; and `compact_below` removes nothing else if what it lists is
settled. The steps are held to exactly that, and an example shows what
happens without the first.
-/

namespace BlipMQ.Daemon.Retention

open BlipMQ.Core
open WriteAhead (DurableCall)

/-! ## The steps -/

/-- The broker on its log, the thresholds taken so far, and the calls of
`compact_below` with what they have removed. -/
structure State where
  daemon : WriteAhead.State
  snapshots : List Nat
  removed : List (Nat × Nat)
  compactors : List Wal.Compactor

/-- The log with its compactors. -/
def State.files (s : State) : Wal.Compacting := ⟨s.daemon.wal, s.removed, s.compactors⟩

def State.withFiles (s : State) (c : Wal.Compacting) : State :=
  { s with
    daemon := { s.daemon with wal := c.log }
    removed := c.removed
    compactors := c.compactors }

inductive Action where
  /-- A step of the clients, of the journaling or of the writer. -/
  | daemon (a : WriteAhead.Action)
  /-- `current_snapshot().snapshot_id` is taken as threshold. -/
  | currentSnapshot
  /-- A step of a call of `compact_below`. -/
  | compaction (a : Wal.CompactAction)

/-- Subscribing, publishing durably, polling and acking, with all that happens to
connections and log meanwhile: no ticks and no replays. -/
def ofClients : WriteAhead.Action → Bool
  | .call (.publish ..) | .call (.maintenanceTick ..) => false
  | .replayFromWal _ | .replayToSubscriber .. | .replayNext .. => false
  | _ => true

/-- A call is made for a threshold that has been taken and is not 0. -/
def State.calls (s : State) : Wal.CompactAction → Bool
  | .log _ => false
  | .compactBelow safe => safe ∈ s.snapshots && 0 < safe
  | _ => true

def step (E : Externals) (crc : Bytes → UInt32) (s : State) : Action → Option State
  | .daemon a =>
    if ofClients a then
      (WriteAhead.step E crc s.daemon a).map fun daemon => { s with daemon := daemon }
    else none
  | .currentSnapshot =>
    some { s with snapshots := s.snapshots ++ [s.daemon.broker.currentSnapshot.snapshotId] }
  | .compaction a => if s.calls a then (s.files.step crc a).map s.withFiles else none

/-- A broker on an opened log, before the first round. -/
def start (broker : Broker) (wal : Wal.State) : State where
  daemon := { WriteAhead.start broker.config wal with broker := broker }
  snapshots := []
  removed := []
  compactors := []

/-! ## Whom a message is kept for -/

/-- A member of a group, or a broadcast subscription that is still registered. -/
def Counts (b : Broker) (x : Nat) (l : Ledger) : Prop :=
  l.home.group ≠ none ∨ (b.subscriptions.lookup x).isSome

instance (b : Broker) (x : Nat) (l : Ledger) : Decidable (Counts b x l) :=
  inferInstanceAs (Decidable (_ ∨ _))

/-- The message is on its way to the subscribers, or someone it was offered to has
not acked it. -/
def Unfinished (d : WriteAhead.State) (walId : Nat) : Prop :=
  (∃ e ∈ d.calls.entries, e.2.request.record.id = walId) ∨
    ∃ e ∈ d.broker.ledgers, Counts d.broker e.1 e.2 ∧ walId ∈ e.2.pending

instance (d : WriteAhead.State) (walId : Nat) : Decidable (Unfinished d walId) :=
  inferInstanceAs (Decidable (_ ∨ _))

/-! ## What is asked of the steps -/

/-- Nobody the message is offered to has acked a later one. -/
def FansOutInOrder (E : Externals) (b : Broker) (call : DurableCall) : Prop :=
  ∀ e ∈ b.ledgers, e.1 ∈ b.targets E call.message.topic none →
    b.ackCursors.get e.2.key < call.request.record.id

/-- Whoever shares the cursor that the ack raises has nothing else pending at or
below the acked id. -/
def AcksInOrder (b : Broker) (subId : Nat) (a : WalAckRecord) : Prop :=
  ∀ e ∈ b.ledgers, Counts b e.1 e.2 → e.2.key = (a.clientId, a.topic) →
    ∀ i ∈ e.2.pending, i ≤ a.ackedWalId → e.1 = subId ∧ i = a.ackedWalId

/-- The threshold is an id given out, no publish at or below it is on its way, and
whoever has something pending there has a cursor. -/
def SnapshotAfterAll (d : WriteAhead.State) : Prop :=
  d.broker.currentSnapshot.snapshotId < d.wal.nextId ∧
    (∀ e ∈ d.calls.entries, d.broker.currentSnapshot.snapshotId < e.2.request.record.id) ∧
    ∀ e ∈ d.broker.ledgers, Counts d.broker e.1 e.2 →
      ∀ i ∈ e.2.pending, i ≤ d.broker.currentSnapshot.snapshotId →
        (d.broker.ackCursors.lookup e.2.key).isSome

def Orderly (E : Externals) (s : State) : Action → Prop
  | .daemon (.resume k _) => ∀ call ∈ s.daemon.calls.lookup k,
    FansOutInOrder E s.daemon.broker call
  | .daemon (.ack subId tag) => ∀ a ∈ (s.daemon.broker.ack subId tag).bind Prod.snd,
    AcksInOrder s.daemon.broker subId a
  | .daemon _ => True
  | .currentSnapshot => SnapshotAfterAll s.daemon
  | .compaction a => Wal.ListsSettled s.files a

instance (E : Externals) (b : Broker) (call : DurableCall) : Decidable (FansOutInOrder E b call) :=
  inferInstanceAs (Decidable (∀ e ∈ b.ledgers, e.1 ∈ b.targets E call.message.topic none →
    b.ackCursors.get e.2.key < call.request.record.id))

instance (b : Broker) (subId : Nat) (a : WalAckRecord) : Decidable (AcksInOrder b subId a) :=
  inferInstanceAs (Decidable (∀ e ∈ b.ledgers, Counts b e.1 e.2 →
    e.2.key = (a.clientId, a.topic) → ∀ i ∈ e.2.pending, i ≤ a.ackedWalId → _ ∧ _))

instance (d : WriteAhead.State) : Decidable (SnapshotAfterAll d) :=
  inferInstanceAs (Decidable (_ ∧ _ ∧ ∀ e ∈ d.broker.ledgers, Counts d.broker e.1 e.2 →
    ∀ i ∈ e.2.pending, i ≤ d.broker.currentSnapshot.snapshotId →
      (d.broker.ackCursors.lookup e.2.key).isSome))

instance (E : Externals) (s : State) : ∀ act, Decidable (Orderly E s act)
  | .daemon (.resume k _) => inferInstanceAs (Decidable (∀ call ∈ s.daemon.calls.lookup k,
      FansOutInOrder E s.daemon.broker call))
  | .daemon (.ack subId tag) => inferInstanceAs (Decidable (∀ a ∈
      (s.daemon.broker.ack subId tag).bind Prod.snd, AcksInOrder s.daemon.broker subId a))
  | .currentSnapshot => inferInstanceAs (Decidable (SnapshotAfterAll s.daemon))
  | .compaction a => inferInstanceAs (Decidable (Wal.ListsSettled s.files a))
  | .daemon (.call _) | .daemon (.journal _) | .daemon (.publishDurable _) | .daemon (.send _)
  | .daemon (.log _) | .daemon (.replayFromWal _) | .daemon (.replayToSubscriber ..)
  | .daemon (.replayNext ..) => isTrue trivial

/-! ## What the clients do to the broker -/

/-- What a step of the clients can do to consumers and cursors. -/
inductive Turn (E : Externals) (d : WriteAhead.State) : WriteAhead.Action → Broker → Prop
  | quiet {a : WriteAhead.Action} {b : Broker} (h : d.broker.Quiet b) : Turn E d a b
  | subscribed {a : WriteAhead.Action} {b : Broker} {l : Ledger} (h : d.broker.Subscribes b l) :
      Turn E d a b
  | fannedOut {k now : Nat} {call : DurableCall} {b : Broker} (hk : d.calls.lookup k = some call)
      (h : d.broker.Publishes b call.offer (d.broker.targets E call.message.topic none)) :
      Turn E d (.resume k now) b
  | acked {x tag : Nat} {a : WalAckRecord} {b : Broker} (h : d.broker.Acks b x tag a) :
      Turn E d (.ack x tag) b

section Turns

variable {E : Externals} {crc : Bytes → UInt32} {d d' : WriteAhead.State} {a : WriteAhead.Action}
  {b : Broker}

theorem turn_of_act {c : BrokerAction} (hclients : ofClients (.call c) = true)
    (hplain : WriteAhead.plain c = true) : Turn E d (.call c) (d.broker.act E c) := by
  cases c with
  | subscribe clientId topic qos connId mode group =>
    exact .subscribed (Broker.subscribeInnerGrouped_spec ..)
  | subscribePattern clientId pattern qos connId mode =>
    simp only [Broker.act]
    split
    · exact .quiet (.refl _)
    · obtain ⟨topic, hspec⟩ := Broker.subscribePatternInner_spec d.broker clientId _ qos connId mode
      exact .subscribed hspec
  | unsubscribeConnection connId => exact .quiet (Broker.unsubscribeConnection_forgets ..).quiet
  | poll now subId => exact .quiet (Broker.poll_quiet ..)
  | buffers slots channels => exact .quiet ⟨fun _ => rfl, fun _ hb => hb, rfl, rfl, fun _ _ h => h⟩
  | beginShutdown => exact .quiet ⟨fun _ => rfl, fun _ hb => hb, rfl, rfl, fun _ _ h => h⟩
  | publish | maintenanceTick => cases hclients
  | ack | replayFromWal | replayToSubscriber => cases hplain

theorem turn_of_ack (d : WriteAhead.State) (x tag : Nat) :
    Turn E d (.ack x tag) (WriteAhead.stepAck d x tag).broker := by
  unfold WriteAhead.stepAck
  split
  · exact .quiet (.refl _)
  · rename_i broker hack
    exact .quiet (Broker.ack_quiet hack)
  · rename_i broker a hack
    exact .acked (Broker.ack_spec hack)

/-- The steps of a `publish_durable`. -/
theorem turn_of_call {k : Nat} (he : WriteAhead.Effect E crc d a d')
    (hcall : d.callOf a = some k) : Turn E d a d'.broker := by
  cases he with
  | registered _ hnone | served _ _ hnone | finished hnone =>
    rw [hnone] at hcall
    cases hcall
  | replayed ha _ =>
    subst ha
    cases hcall
  | logged | entered | refused | failed | sent | read => exact .quiet (.refl _)
  | fannedOut ha hk _ =>
    subst ha
    exact .fannedOut hk (Broker.publishInner_spec ..)

theorem turn_of_step (hclients : ofClients a = true) (hs : WriteAhead.step E crc d a = some d') :
    Turn E d a d'.broker := by
  cases a with
  | call c =>
    obtain ⟨hplain, ⟨⟩⟩ := Option.ite_none_right_eq_some.mp hs
    exact turn_of_act hclients hplain
  | ack x tag =>
    cases hs
    exact turn_of_ack d x tag
  | journal i =>
    simp only [WriteAhead.step, WriteAhead.stepJournal] at hs
    split at hs
    · cases hs
    · cases hs
      exact .quiet (.refl _)
  | log b =>
    obtain ⟨wal, -, rfl⟩ := Option.map_eq_some_iff.mp (Option.ite_none_right_eq_some.mp hs).2
    exact .quiet (.refl _)
  | publishDurable | send | resume => exact turn_of_call (WriteAhead.step_effect hs) rfl
  | replayFromWal | replayToSubscriber | replayNext => cases hclients

/-! ## Pending messages are beyond the cursors -/

/-- **The invariant**: what is pending is beyond the cursor. -/
def BeyondCursors (b : Broker) : Prop :=
  ∀ x l, b.ledger? x = some l → Counts b x l → ∀ i ∈ l.pending, b.ackCursors.get l.key < i

variable {x : Nat} {b' b : Broker} {l : Ledger}

/-- A step that only lets registrations go takes nobody in. -/
theorem Counts.of_forgets (h : Counts b' x l)
    (hrefs : ∀ subRef, b'.subscriptions.lookup x = some subRef →
      b.subscriptions.lookup x = some subRef) : Counts b x l := by
  rcases h with hgroup | hlive
  · exact .inl hgroup
  · obtain ⟨subRef, href⟩ := Option.isSome_iff_exists.mp hlive
    exact .inr (Option.isSome_iff_exists.mpr ⟨subRef, hrefs subRef href⟩)

/-- What is pending after an ack was so before, and is not what is acked. -/
theorem pending_of_acks {tag : Nat} {r : WalAckRecord} (hack : b.Acks b' x tag r) {y : Nat}
    (hl : b'.ledger? y = some l) (hcounts : Counts b' y l) {i : Nat} (hi : i ∈ l.pending) :
    ∃ l₀, b.ledger? y = some l₀ ∧ l.key = l₀.key ∧ Counts b y l₀ ∧ i ∈ l₀.pending ∧
      ¬ (y = x ∧ i = r.ackedWalId) := by
  obtain ⟨l₀, hl₀, rfl⟩ := Option.map_eq_some_iff.mp ((hack.ledger y).symm.trans hl)
  have hcounts₀ := hcounts.of_forgets (b := b) fun r hr => hack.subscriptions ▸ hr
  refine ⟨l₀, hl₀, ?_⟩
  by_cases hy : y = x
  · rw [if_pos hy] at hi hcounts₀ ⊢
    obtain ⟨hpending, hne⟩ := Ledger.mem_pending_ack.mp hi
    exact ⟨rfl, hcounts₀, hpending, fun heq => hne heq.2⟩
  · rw [if_neg hy] at hi hcounts₀ ⊢
    exact ⟨rfl, hcounts₀, hi, fun heq => hy heq.1⟩

/-- **Where a pending message comes from**: it was pending there before, or it is
fanned out to the subscription by this step. -/
theorem Turn.pending (h : Turn E d a b) (hl : b.ledger? x = some l) (hcounts : Counts b x l)
    {i : Nat} (hi : i ∈ l.pending) :
    ∃ l₀, d.broker.ledger? x = some l₀ ∧ l.key = l₀.key ∧ Counts d.broker x l₀ ∧
      (i ∈ l₀.pending ∨ ∃ k now call, a = .resume k now ∧ d.calls.lookup k = some call ∧
        i = call.request.record.id ∧ x ∈ d.broker.targets E call.message.topic none) := by
  cases h with
  | quiet hq =>
    exact ⟨l, hq.ledger x ▸ hl, rfl, hcounts.of_forgets fun r => hq.subscriptions x r, .inl hi⟩
  | subscribed hsub =>
    rw [hsub.ledger x] at hl
    split at hl
    · cases hl
      obtain ⟨⟨o, ho, -⟩, -⟩ := Ledger.mem_pending.mp hi
      rw [hsub.fresh.1] at ho
      cases ho
    · rename_i hne
      refine ⟨l, hl, rfl, hcounts.of_forgets fun r hr => ?_, .inl hi⟩
      rwa [hsub.subscriptions x, if_neg hne] at hr
  | @fannedOut k now call _ hk hpub =>
    obtain ⟨l₀, hl₀, rfl⟩ := Option.map_eq_some_iff.mp ((hpub.ledger x).symm.trans hl)
    have hcounts₀ : Counts d.broker x l₀ := hcounts.of_forgets fun r => hpub.subscriptions x r
    refine ⟨l₀, hl₀, rfl, hcounts₀, (Ledger.mem_pending_offer hi).imp id ?_⟩
    rintro ⟨o, ho, hid⟩
    obtain ⟨hne, rfl⟩ := List.mem_replicate.mp ho
    exact ⟨k, now, call, rfl, hk, (Option.some.inj hid).symm,
      List.count_pos_iff.mp (Nat.pos_of_ne_zero hne)⟩
  | acked hack =>
    obtain ⟨l₀, hl₀, hkey, hcounts₀, hpending, -⟩ := pending_of_acks hack hl hcounts hi
    exact ⟨l₀, hl₀, hkey, hcounts₀, .inl hpending⟩

theorem BeyondCursors.ack {tag : Nat} {r : WalAckRecord} (h : BeyondCursors b)
    (hack : b.Acks b' x tag r) (horder : AcksInOrder b x r) : BeyondCursors b' := by
  intro y l hl hcounts i hi
  obtain ⟨l₀, hl₀, hkey, hcounts₀, hpending, hother⟩ := pending_of_acks hack hl hcounts hi
  have hold := h y l₀ hl₀ hcounts₀ i hpending
  rw [hkey, hack.ackCursors, MaxMap.get_raise]
  split
  · rename_i heq
    -- the cursor that the ack raises
    refine Nat.max_lt.mpr ⟨heq ▸ hold, Nat.lt_of_not_le fun hle => hother ?_⟩
    exact horder (y, l₀) (Broker.mem_ledgers.mpr hl₀) hcounts₀ heq i hpending hle
  · exact hold

/-- Steps that leave the cursors alone. -/
theorem BeyondCursors.of_ackCursors (h : BeyondCursors d.broker) (hturn : Turn E d a b)
    (hcursors : b.ackCursors = d.broker.ackCursors)
    (horder : ∀ k now call, a = .resume k now → d.calls.lookup k = some call →
      FansOutInOrder E d.broker call) : BeyondCursors b := by
  intro x l hl hcounts i hi
  obtain ⟨l₀, hl₀, hkey, hcounts₀, hpending | ⟨k, now, call, ha, hk, rfl, hx⟩⟩ :=
    hturn.pending hl hcounts hi
  · rw [hcursors, hkey]
    exact h x l₀ hl₀ hcounts₀ i hpending
  · rw [hcursors, hkey]
    exact horder k now call ha hk (x, l₀) (Broker.mem_ledgers.mpr hl₀) hx

theorem BeyondCursors.turn {s : State} (h : BeyondCursors s.daemon.broker)
    (hturn : Turn E s.daemon a b) (horder : Orderly E s (.daemon a)) : BeyondCursors b := by
  have hresume : ∀ k now call, a = .resume k now → s.daemon.calls.lookup k = some call →
      FansOutInOrder E s.daemon.broker call := by
    rintro k now call rfl hk
    exact horder call hk
  cases id hturn with
  | quiet hq => exact h.of_ackCursors hturn hq.ackCursors hresume
  | subscribed hsub => exact h.of_ackCursors hturn hsub.ackCursors hresume
  | fannedOut _ hpub => exact h.of_ackCursors hturn hpub.ackCursors hresume
  | acked hack => exact h.ack hack (horder _ hack.entry)

end Turns

/-! ## Nothing below a threshold is unfinished -/

section Thresholds

variable {E : Externals} {crc : Bytes → UInt32} {d d' : WriteAhead.State} {a : WriteAhead.Action}

theorem stepBuild_taken (wal : Wal.State) (data : Bytes) (durable : Bool) :
    (Wal.stepBuild wal data durable).taken = wal.taken + 1 := by
  unfold Wal.stepBuild
  dsimp only
  split <;> rfl

/-- **What a step makes unfinished has a new id.** -/
theorem unfinished_of_step (hclients : ofClients a = true)
    (hs : WriteAhead.step E crc d a = some d') {i : Nat} (h : Unfinished d' i) :
    Unfinished d i ∨ i = d.wal.nextId ∧ d.wal.taken < d'.wal.taken := by
  rcases h with ⟨⟨k, call⟩, he, rfl⟩ | ⟨⟨x, l⟩, he, hcounts, hi⟩
  · refine (WriteAhead.step_effect hs).forall_calls (P := fun _ request =>
      Unfinished d request.record.id ∨
        request.record.id = d.wal.nextId ∧ d.wal.taken < d'.wal.taken) ?_ ?_ k call
      (AList.mem_lookup_iff.mpr he)
    · exact fun j call₀ hj => .inl (.inl ⟨⟨j, call₀⟩, AList.mem_lookup_iff.mp hj, rfl⟩)
    · intro message payload _ hwal
      rw [hwal, stepBuild_taken]
      exact .inr ⟨rfl, Nat.lt_succ_self _⟩
  · obtain ⟨l₀, hl₀, -, hcounts₀, hpending | ⟨k, now, call, -, hk, rfl, -⟩⟩ :=
      (turn_of_step hclients hs).pending (Broker.mem_ledgers.mp he) hcounts hi
    · exact .inl (.inr ⟨(x, l₀), Broker.mem_ledgers.mpr hl₀, hcounts₀, hpending⟩)
    · exact .inl (.inl ⟨⟨k, call⟩, AList.mem_lookup_iff.mp hk, rfl⟩)

/-- Below the threshold every id has been given out, and nothing is unfinished.
`first` is the first id of the run. -/
def Clear (first : Nat) (d : WriteAhead.State) (t : Nat) : Prop :=
  t < first + d.wal.taken ∧ ∀ i ≤ t, ¬ Unfinished d i

theorem Clear.step {first t : Nat} (h : Clear first d t) (hclients : ofClients a = true)
    (hs : WriteAhead.step E crc d a = some d') (htaken : d.wal.taken ≤ d'.wal.taken)
    (hnext : d.wal.taken < d'.wal.taken → d.wal.nextId = first + d.wal.taken) :
    Clear first d' t := by
  refine ⟨by have := h.1; omega, fun i hi hunfinished => ?_⟩
  rcases unfinished_of_step hclients hs hunfinished with hold | ⟨rfl, hlt⟩
  · exact h.2 i hi hold
  · have := h.1
    have := hnext hlt
    omega

theorem clear_of_snapshot {first : Nat} (hbeyond : BeyondCursors d.broker)
    (hafter : SnapshotAfterAll d) (hnext : d.wal.nextId ≤ first + d.wal.taken) :
    Clear first d d.broker.currentSnapshot.snapshotId := by
  obtain ⟨hlt, hcalls, hcursors⟩ := hafter
  refine ⟨Nat.lt_of_lt_of_le hlt hnext, fun i hi => ?_⟩
  rintro (⟨e, he, rfl⟩ | ⟨⟨x, l⟩, he, hcounts, hpending⟩)
  · have := hcalls e he
    omega
  · -- a cursor at or above the threshold, and the message beyond the cursor
    obtain ⟨v, hv⟩ := Option.isSome_iff_exists.mp (hcursors _ he hcounts i hpending hi)
    have hfloor : d.broker.currentSnapshot.snapshotId ≤ v := MaxMap.floor_le hv
    have hlt := hbeyond x l (Broker.mem_ledgers.mp he) hcounts i hpending
    rw [MaxMap.get_of_lookup hv] at hlt
    omega

end Thresholds

/-! ## The segments a compaction removes -/

/-- The thresholds taken, and those of the calls and of the removals. -/
def State.thresholds (s : State) : List Nat := s.snapshots ++ s.files.thresholds

section Runs

variable {E : Externals} {crc : Bytes → UInt32} {config : Wal.WalConfig} {dir : Dir Bytes}
  {segs front : List Wal.StoredSegment} {last : Wal.StoredSegment} {o : Wal.Opened}
  {hlog : Wal.StoredLog crc o front last} {synced : Nat → Nat} {s s' : State} {act : Action}

/-- The files are as `compact_below` relies on, and no threshold is too high. -/
structure Safe (hlog : Wal.StoredLog crc o front last) (synced : Nat → Nat) (s : State) : Prop where
  files : ∃ full L, Wal.CompactInv crc (hlog.origin synced) s.files full L
  clear : ∀ t ∈ s.thresholds, Clear o.nextId s.daemon t

theorem Safe.nextId (h : Safe hlog synced s) :
    s.daemon.wal.nextId = (o.nextId + s.daemon.wal.taken) % 2 ^ 64 := by
  obtain ⟨full, L, hinv⟩ := h.files
  exact hinv.inv.requests.nextId

theorem Safe.daemon {a : WriteAhead.Action} {d : WriteAhead.State}
    (h : o.nextId + s.daemon.wal.taken ≤ 2 ^ 64 → Safe hlog synced s)
    (hclients : ofClients a = true) (hs : WriteAhead.step E crc s.daemon a = some d)
    (hle : o.nextId + d.wal.taken ≤ 2 ^ 64) : Safe hlog synced { s with daemon := d } := by
  have hstep := (WriteAhead.step_effect hs).logStep
  have htaken : s.daemon.wal.taken ≤ d.wal.taken := by
    rcases hstep with heq | ⟨b, hb⟩
    · rw [heq]
    · exact Wal.step_taken_le hb
  have hsafe := h (by omega)
  refine ⟨?_, fun t ht => (hsafe.clear t ht).step hclients hs htaken fun hlt => ?_⟩
  · obtain ⟨full, L, hinv⟩ := hsafe.files
    rcases hstep with heq | ⟨b, hb⟩
    · rw [State.files, heq]
      exact ⟨full, L, hinv⟩
    · exact ⟨_, hinv.log hb⟩
  · have hlt : s.daemon.wal.taken < d.wal.taken := hlt
    rw [hsafe.nextId, Nat.mod_eq_of_lt (by omega)]

theorem Safe.snapshot (h : Safe hlog synced s) (hbeyond : BeyondCursors s.daemon.broker)
    (hafter : SnapshotAfterAll s.daemon) : Safe hlog synced { s with
      snapshots := s.snapshots ++ [s.daemon.broker.currentSnapshot.snapshotId] } := by
  refine ⟨h.files, fun t ht => ?_⟩
  have hnew : Clear o.nextId s.daemon s.daemon.broker.currentSnapshot.snapshotId :=
    clear_of_snapshot hbeyond hafter (h.nextId ▸ Nat.mod_le _ _)
  rcases List.mem_append.mp ht with ht | ht
  · rcases List.mem_append.mp ht with ht | ht
    · exact h.clear t (List.mem_append_left _ ht)
    · rw [List.mem_singleton.mp ht]
      exact hnew
  · exact h.clear t (List.mem_append_right _ ht)

theorem Safe.compaction (hclean : Wal.CleanLog crc dir segs)
    (hopen : Wal.openWithConfig crc config (.directory dir) = .ok o)
    (hrecords : Wal.allRecords (front ++ [last]) = Wal.allRecords segs)
    (h : o.nextId + s.daemon.wal.taken ≤ 2 ^ 64 → Safe hlog synced s) {a : Wal.CompactAction}
    (hcalls : s.calls a = true) (hsettled : Wal.ListsSettled s.files a) {c : Wal.Compacting}
    (hs : s.files.step crc a = some c) (hle : o.nextId + c.log.taken ≤ 2 ^ 64) :
    Safe hlog synced (s.withFiles c) := by
  have htaken : s.daemon.wal.taken ≤ c.log.taken := Wal.Compacting.step_taken_le hs
  have hsafe := h (by omega)
  have hcall : a.isLog = false := by
    cases a with
    | log b => cases hcalls
    | _ => rfl
  refine ⟨hclean.step_compactInv hopen hrecords (fun hle => (h hle).files) hsettled hs hle,
    fun t ht => ?_⟩
  have hclear : Clear o.nextId s.daemon t := by
    rcases List.mem_append.mp ht with ht | ht
    · exact hsafe.clear t (List.mem_append_left _ ht)
    · rcases (Wal.Compacting.callStep hcall hs).thresholds ht with ht | rfl
      · exact hsafe.clear t (List.mem_append_right _ ht)
      · simp only [State.calls, Bool.and_eq_true, decide_eq_true_eq] at hcalls
        exact hsafe.clear t (List.mem_append_left _ hcalls.1)
  exact ⟨Nat.lt_of_lt_of_le hclear.1 (Nat.add_le_add_left htaken _), hclear.2⟩

/-- **Every orderly step keeps pending messages beyond the cursors and the files
safe.** -/
theorem step_safe (hclean : Wal.CleanLog crc dir segs)
    (hopen : Wal.openWithConfig crc config (.directory dir) = .ok o)
    (hrecords : Wal.allRecords (front ++ [last]) = Wal.allRecords segs)
    (h : BeyondCursors s.daemon.broker ∧
      (o.nextId + s.daemon.wal.taken ≤ 2 ^ 64 → Safe hlog synced s))
    (horder : Orderly E s act) (hs : step E crc s act = some s') :
    BeyondCursors s'.daemon.broker ∧
      (o.nextId + s'.daemon.wal.taken ≤ 2 ^ 64 → Safe hlog synced s') := by
  obtain ⟨hbeyond, hsafe⟩ := h
  cases act with
  | daemon a =>
    obtain ⟨hclients, hs⟩ := Option.ite_none_right_eq_some.mp hs
    obtain ⟨d, hd, rfl⟩ := Option.map_eq_some_iff.mp hs
    exact ⟨hbeyond.turn (turn_of_step hclients hd) horder, Safe.daemon hsafe hclients hd⟩
  | currentSnapshot =>
    cases hs
    exact ⟨hbeyond, fun hle => (hsafe hle).snapshot hbeyond horder⟩
  | compaction a =>
    obtain ⟨hcalls, hs⟩ := Option.ite_none_right_eq_some.mp hs
    obtain ⟨c, hc, rfl⟩ := Option.map_eq_some_iff.mp hs
    exact ⟨hbeyond, Safe.compaction hclean hopen hrecords hsafe hcalls horder hc⟩

/-- **Compaction removes nothing that is unfinished**, in every run of orderly steps
from a clean log: no removed file is the active segment, and no message
whose record a removed file holds is unfinished. The broker starts without
subscribers, as every replay leaves it. -/
theorem compaction_spares_unfinished {broker : Broker} {acts : List Action}
    (hclean : Wal.CleanLog crc dir segs)
    (hopen : Wal.openWithConfig crc config (.directory dir) = .ok o)
    (hnobody : ∀ x, broker.ledger? x = none)
    (hrun : run (step E crc) (start broker (o.start config synced)) acts = some s)
    (horderly : Meets (step E crc) (Orderly E) (start broker (o.start config synced)) acts)
    (hids : o.nextId + s.daemon.wal.taken ≤ 2 ^ 64) :
    ∀ p ∈ s.removed, p.1 ≠ s.daemon.wal.currentSegmentSeq ∧
      ∀ f, s.daemon.wal.dir.find? p.1 = some f → ∀ r ∈ Wal.recordsFound crc f.bytes,
        ∀ m, message? r = some m → ¬ Unfinished s.daemon r.id := by
  obtain ⟨front, last, hlog, hwhole, hrecords⟩ := hclean.opened hopen
  have hstart : Safe hlog synced (start broker (o.start config synced)) :=
    ⟨⟨_, _, hlog.start_compactInv (Wal.openWithConfig_nextId_lt hopen) config synced⟩,
      List.forall_mem_nil _⟩
  have hinv := run_invariant_of_meets (P := fun s => BeyondCursors s.daemon.broker ∧
      (o.nextId + s.daemon.wal.taken ≤ 2 ^ 64 → Safe hlog synced s))
    (fun _ _ _ h horder hs => step_safe hclean hopen hrecords h horder hs)
    ⟨fun x l hl => absurd (hl.symm.trans (hnobody x)) (Option.some_ne_none l), fun _ => hstart⟩
    horderly hrun
  have hsafe := hinv.2 hids
  obtain ⟨full, L, hfiles⟩ := hsafe.files
  intro p hp
  obtain ⟨hactive, hfound⟩ := hfiles.removed_file hwhole hp
  refine ⟨hactive, fun f hf r hr m _ => ?_⟩
  have ht : p.2 ∈ s.thresholds :=
    List.mem_append_right _ (Wal.Compacting.mem_thresholds.mpr (.inr ⟨p, hp, rfl⟩))
  exact (hsafe.clear p.2 ht).2 r.id (hfound f hf r hr)

/-- Two messages in two segments are handed out to a polling client, which acks the
one under this tag; then a round of the checkpoint task. -/
def ackOfTwo (tag : Nat) : List Action :=
  ([.call (.subscribe "c" "t" .atLeastOnce none .poll none),
    .publishDurable ⟨"t", .atLeastOnce, [7]⟩, .send 0, .log (.recv 0), .log (.writeBatch .ok),
    .log (.indexBatch 0), .log (.flushFile .ok), .resume 0 0,
    .publishDurable ⟨"t", .atLeastOnce, [8]⟩, .send 1, .log (.recv 0), .log (.flushFile .ok),
    .log (.createSegment .ok), .log (.writeHeader .ok), .log (.syncHeader .ok),
    .log (.writeBatch .ok), .log (.indexBatch 0), .log (.flushFile .ok), .resume 1 0,
    .call (.poll 0 1), .call (.poll 0 1), .ack 1 tag].map Action.daemon) ++
  [.currentSnapshot, .compaction (.compactBelow tag), .compaction (.scanIndex 0),
    .compaction (.listDir 0 .ok), .compaction (.removeNext 0 .ok)]

/-- The daemon on a new log. -/
def onFreshLog : State :=
  start (Broker.new .default) (Wal.freshLog.start Wal.tinyConfig fun _ => Wal.headerLen)

/-- The ids of the messages in the files without a name. -/
def State.removedMessages (s : State) : List Nat :=
  s.removed.flatMap fun p => ((s.daemon.wal.dir.find? p.1).map fun f =>
    ((Wal.recordsFound Crc32.crc32 f.bytes).filter fun r => (message? r).isSome).map
      Wal.WalRecord.id).getD []

end Runs

/-- After the first ack the compaction removes the first segment. -/
theorem compaction_spares_unfinished_after_first_ack :
    ∃ s, run (step plainExternals Crc32.crc32) onFreshLog (ackOfTwo 1) = some s ∧
      s.removed = [(1, 1)] ∧ s.removedMessages = [1] ∧ Unfinished s.daemon 2 ∧
      ∀ f, s.daemon.wal.dir.find? 1 = some f → ∀ r ∈ Wal.recordsFound Crc32.crc32 f.bytes,
        ∀ m, message? r = some m → ¬ Unfinished s.daemon r.id := by
  obtain ⟨s, hs, hids, hremoved, hmessages, hunfinished⟩ :
      ∃ s, run (step plainExternals Crc32.crc32) onFreshLog (ackOfTwo 1) = some s ∧
        Wal.freshLog.nextId + s.daemon.wal.taken ≤ 2 ^ 64 ∧ s.removed = [(1, 1)] ∧
        s.removedMessages = [1] ∧ Unfinished s.daemon 2 := by decide +kernel
  have horderly : Meets (step plainExternals Crc32.crc32) (Orderly plainExternals) onFreshLog
      (ackOfTwo 1) := by decide +kernel
  have h := compaction_spares_unfinished (Wal.cleanLog_empty _) Wal.open_empty (fun _ => rfl) hs
    horderly hids (1, 1) (by rw [hremoved]; simp)
  exact ⟨s, hs, hremoved, hmessages, hunfinished, h.2⟩

/-- After an ack of the second message alone the compaction removes the segment of
the first, which its subscriber has not acked. -/
theorem compaction_removes_unacked_message :
    ∃ s, run (step plainExternals Crc32.crc32) onFreshLog (ackOfTwo 2) = some s ∧
      s.removed = [(1, 2)] ∧ s.removedMessages = [1] ∧ Unfinished s.daemon 1 := by
  decide +kernel

end BlipMQ.Daemon.Retention
