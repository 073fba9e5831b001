import BlipMQ.Core.Ledger
import BlipMQ.Core.Log
import BlipMQ.Wal.Iterate

/-!
# Broker — checkpoints and replay

A checkpoint holds the cursors, the highest acked id of each consumer, and
the least of them as `snapshot_id`. Replay reads the log behind
`snapshot_id`, raises the cursors by the ack entries it finds, and offers
each message to the topic's broadcast subscribers whose cursor is below it.
-/

namespace BlipMQ.Core

open Wal (WalError WalRecord)

/-- An ack as a cursor of its consumer. -/
def WalAckRecord.cursor (a : WalAckRecord) : (String × String) × Nat :=
  ((a.clientId, a.topic), a.ackedWalId)

structure CheckpointSnapshot where
  snapshotId : Nat
  cursors : MaxMap (String × String)

/-! ## The checkpoint file -/

namespace CheckpointSnapshot

def checkpointMagic : Bytes := [0x42, 0x4C, 0x49, 0x50, 0x43, 0x4B, 0x50, 0x54]
def checkpointVersion : Nat := 1

def encodeCursor (e : (String × String) × Nat) : Except WalError Bytes :=
  let cidBytes := utf8 e.1.1
  let topicBytes := utf8 e.1.2
  if 2 ^ 16 ≤ cidBytes.length then .error (.corruption "client_id too long")
  else if 2 ^ 16 ≤ topicBytes.length then .error (.corruption "topic too long")
  else .ok (beBytes 2 cidBytes.length ++ (cidBytes ++
    (beBytes 2 topicBytes.length ++ (topicBytes ++ beBytes 8 e.2))))

def encode (E : Externals) (snap : CheckpointSnapshot) : Except WalError Bytes := do
  let n := snap.cursors.pairs.length
  if 2 ^ 32 ≤ n then .error (.corruption "too many checkpoint entries")
  let cursors ← snap.cursors.pairs.mapM encodeCursor
  let buf := checkpointMagic ++ beBytes 4 checkpointVersion ++ beBytes 8 snap.snapshotId ++
    beBytes 4 n ++ cursors.flatten
  return buf ++ beBytes 4 (E.crc32 buf).toNat

/-- The loop over `n` cursors. -/
def decodeCursors : Nat → Bytes → MaxMap (String × String) →
    Except WalError (MaxMap (String × String))
  | 0, _, cursors => .ok cursors
  | n + 1, slice, cursors => do
    if slice.length < 2 then .error (.corruption "checkpoint truncated")
    let cidLen := beNat (slice.take 2)
    let slice := slice.drop 2
    if slice.length < cidLen + 2 then .error (.corruption "checkpoint truncated")
    let cid ← textOr "cid not utf8" (slice.take cidLen)
    let slice := slice.drop cidLen
    let topicLen := beNat (slice.take 2)
    let slice := slice.drop 2
    if slice.length < topicLen + 8 then .error (.corruption "checkpoint truncated")
    let topic ← textOr "topic not utf8" (slice.take topicLen)
    let slice := slice.drop topicLen
    decodeCursors n (slice.drop 8) (cursors.insert (cid, topic) (beNat (slice.take 8)))

def decode (E : Externals) (bytes : Bytes) : Except WalError CheckpointSnapshot := do
  if bytes.length < 8 + 4 + 8 + 4 + 4 then .error (.corruption "checkpoint file too short")
  let body := bytes.take (bytes.length - 4)
  if (E.crc32 body).toNat ≠ beNat (bytes.drop (bytes.length - 4)) then
    .error (.corruption "checkpoint CRC mismatch")
  if body.take 8 ≠ checkpointMagic then .error (.corruption "checkpoint magic mismatch")
  let version := beNat ((body.drop 8).take 4)
  if version ≠ checkpointVersion then
    .error (.corruption s!"unsupported checkpoint version: {version}")
  let n := beNat ((body.drop 20).take 4)
  let cursors ← decodeCursors n (body.drop 24) ∅
  return ⟨beNat ((body.drop 12).take 8), cursors⟩

/-- `load_checkpoint_from` on the contents of the file, `none` if there is no
file. -/
def loadFrom (E : Externals) : Option Bytes → Except WalError (Option CheckpointSnapshot)
  | none => .ok none
  | some bytes => (decode E bytes).map some

end CheckpointSnapshot

namespace Broker

/-- The least cursor over all consumers that have acked something. -/
def currentSnapshot (b : Broker) : CheckpointSnapshot := ⟨b.ackCursors.floor, b.ackCursors⟩

/-- The highest id that was acked under the name of the group. -/
def groupCommittedOffset (b : Broker) (group topic : String) : Option Nat :=
  b.ackCursors.lookup ("group:" ++ group, topic)

/-! ## Replay -/

/-- Pass 1: cursors refined by one record. -/
def refineCursor (cursors : MaxMap (String × String)) (r : WalRecord) : MaxMap (String × String) :=
  match ack? r with
  | some a => cursors.raise (a.clientId, a.topic) a.ackedWalId
  | none => cursors

/-- Re-delivery to one subscriber. A slot is written to whatever its length; a
channel subscriber gets the message in its queue. -/
def redeliver (E : Externals) (b : Broker) (now : Nat) (o : Offer) (subId : Nat) : Broker :=
  match b.subscribers.lookup subId with
  | none => b
  | some sub =>
    let ttl := some b.config.messageTtl
    match sub.mode with
    | .slot slot =>
      let b := { b with subscribers := b.subscribers.insert subId (sub.push now o ttl true) }
      b.send E (.slot slot) ⟨subId, o.topic, o.payload, o.qos, sub.wireTag o⟩
    | _ => { b with subscribers := b.subscribers.insert subId (sub.enqueue now o ttl) }

/-- The subscriber has not acked this far yet. -/
def beyondCursor (b : Broker) (cursors : MaxMap (String × String)) (topic : String) (walId : Nat)
    (subId : Nat) : Bool :=
  match b.subscribers.lookup subId with
  | none => false
  | some sub => cursors.get (sub.clientId, topic) < walId

/-- Pass 2 for one record: the topic's broadcast subscribers, not its groups and
not the wildcard subscriptions. -/
def replayRecord (E : Externals) (now : Nat) (cursors : MaxMap (String × String)) (b : Broker)
    (r : WalRecord) : Broker :=
  match message? r with
  | none => b
  | some m =>
    match b.topics.lookup m.topic with
    | none => b
    | some topic => topic.subscribers.foldl (fun b x =>
        if b.beyondCursor cursors m.topic r.id x then
          b.redeliver E now ⟨some r.id, m.topic, m.payload, m.qos⟩ x
        else b) b

/-- The first id replay reads; `snapshot_id + 1` saturates. -/
def replayStart : Option CheckpointSnapshot → Nat
  | some cp => min (cp.snapshotId + 1) (2 ^ 64 - 1)
  | none => 1

def seedCursors : Option CheckpointSnapshot → MaxMap (String × String)
  | some cp => cp.cursors
  | none => ∅

/-- Pass 1 over the records that were read. -/
def cursorsOf (checkpoint : Option CheckpointSnapshot) (records : List WalRecord) :
    MaxMap (String × String) :=
  records.foldl refineCursor (seedCursors checkpoint)

/-- Both passes over the records that were read, and the merge of the cursors. -/
def replayRecords (E : Externals) (now : Nat) (b : Broker)
    (checkpoint : Option CheckpointSnapshot) (records : List WalRecord) : Broker :=
  let cursors := cursorsOf checkpoint records
  let b := records.foldl (replayRecord E now cursors) b
  { b with ackCursors := b.ackCursors.raiseAll cursors.pairs }

/-- `replay_from_wal_with_checkpoint` on an index and the files. -/
def replayFromFiles (E : Externals) (crc : Bytes → UInt32) (now : Nat) (index : Wal.Index)
    (dir : Dir Bytes) (b : Broker) (checkpoint : Option CheckpointSnapshot) :
    Except WalError Broker :=
  (Wal.iterateFrom crc index dir (replayStart checkpoint)).map (b.replayRecords E now checkpoint)

/-! On a log whose records stand in the order of their ids: -/

def replayCursors (log : Log) (checkpoint : Option CheckpointSnapshot) : MaxMap (String × String) :=
  cursorsOf checkpoint (log.iterateFrom (replayStart checkpoint))

def replayFromWalWithCheckpoint (E : Externals) (now : Nat) (log : Log) (b : Broker)
    (checkpoint : Option CheckpointSnapshot) : Broker :=
  b.replayRecords E now checkpoint (log.iterateFrom (replayStart checkpoint))

def replayFromWal (E : Externals) (now : Nat) (log : Log) (b : Broker) : Broker :=
  b.replayFromWalWithCheckpoint E now log none

/-! ## Replay to one subscriber -/

/-- One record of an offset replay: pushed if it is a message of the topic. A
subscriber that polls gets nothing. -/
def replayTo (E : Externals) (now : Nat) (topic : String) (subId : Nat) (b : Broker)
    (r : WalRecord) : Broker :=
  match message? r, b.subscribers.lookup subId with
  | some m, some sub =>
    if m.topic = topic ∧ sub.mode ≠ .poll then
      (b.deliver E now ⟨some r.id, topic, m.payload, m.qos⟩ (some b.config.messageTtl) subId).1
    else b
  | _, _ => b

/-- Offset 0 stands for the beginning of the log. -/
def replayToSubscriber (E : Externals) (now : Nat) (log : Log) (b : Broker)
    (subId fromOffset : Nat) : Broker :=
  match b.subscriptions.lookup subId with
  | none => b
  | some subRef =>
    let startId := if fromOffset = 0 then 1 else fromOffset
    (log.iterateFrom startId).foldl (replayTo E now subRef.topic subId) b

/-! ## Pass 1 -/

/-- Pass 1 raises the cursors by every ack entry. -/
theorem foldl_refineCursor (records : List WalRecord) (cursors : MaxMap (String × String)) :
    records.foldl refineCursor cursors =
      cursors.raiseAll ((records.filterMap ack?).map WalAckRecord.cursor) := by
  induction records generalizing cursors with
  | nil => rfl
  | cons r records ih =>
    rw [List.foldl_cons, ih, refineCursor]
    cases h : ack? r with
    | none => rw [List.filterMap_cons_none h]
    | some a => rw [List.filterMap_cons_some h]; rfl

theorem replayCursors_eq (log : Log) (checkpoint : Option CheckpointSnapshot) :
    replayCursors log checkpoint = (seedCursors checkpoint).raiseAll
      (((log.iterateFrom (replayStart checkpoint)).filterMap ack?).map WalAckRecord.cursor) :=
  foldl_refineCursor ..

theorem isSome_lookup_replayCursors {log : Log} {checkpoint : Option CheckpointSnapshot}
    {key : String × String} : ((replayCursors log checkpoint).lookup key).isSome ↔
      ((seedCursors checkpoint).lookup key).isSome ∨
        ∃ r ∈ log.records, replayStart checkpoint ≤ r.id ∧
          ∃ a, ack? r = some a ∧ (a.clientId, a.topic) = key := by
  rw [replayCursors_eq, MaxMap.isSome_lookup_raiseAll]
  simp only [Log.iterateFrom, List.mem_map, List.mem_filterMap, List.mem_filter, decide_eq_true_eq,
    WalAckRecord.cursor]
  constructor
  · rintro (h | ⟨_, ⟨a, ⟨r, ⟨hr, hstart⟩, ha⟩, rfl⟩, hkey⟩)
    · exact .inl h
    · exact .inr ⟨r, hr, hstart, a, ha, hkey⟩
  · rintro (h | ⟨r, hr, hstart, a, ha, hkey⟩)
    · exact .inl h
    · exact .inr ⟨_, ⟨a, ⟨r, ⟨hr, hstart⟩, ha⟩, rfl⟩, hkey⟩

/-- A bound of a consumer's cursor bounds its seed and its acks in the log. -/
theorem get_replayCursors_le {log : Log} {checkpoint : Option CheckpointSnapshot}
    {key : String × String} {n : Nat} : (replayCursors log checkpoint).get key ≤ n ↔
      (seedCursors checkpoint).get key ≤ n ∧
        ∀ r ∈ log.records, replayStart checkpoint ≤ r.id →
          ∀ a, ack? r = some a → (a.clientId, a.topic) = key → a.ackedWalId ≤ n := by
  rw [replayCursors_eq, MaxMap.get_raiseAll_le]
  simp only [Log.iterateFrom, List.mem_map, List.mem_filterMap, List.mem_filter, decide_eq_true_eq,
    WalAckRecord.cursor]
  constructor
  · rintro ⟨hseed, h⟩
    exact ⟨hseed, fun r hr hstart a ha => h _ ⟨a, ⟨r, ⟨hr, hstart⟩, ha⟩, rfl⟩⟩
  · rintro ⟨hseed, h⟩
    refine ⟨hseed, ?_⟩
    rintro _ ⟨a, ⟨r, ⟨hr, hstart⟩, ha⟩, rfl⟩
    exact h r hr hstart a ha

/-! ## Pass 2 -/

/-- How often a subscription stands among the broadcast subscribers of a topic. -/
def broadcasts (b : Broker) (topic : String) (subId : Nat) : Nat :=
  match b.topics.lookup topic with
  | none => 0
  | some t => t.subscribers.count subId

/-- What one record makes pass 2 offer to a subscription. -/
def replayOffers (b : Broker) (cursors : MaxMap (String × String)) (subId : Nat) (r : WalRecord) :
    List Offer :=
  match message? r with
  | none => []
  | some m =>
    if b.beyondCursor cursors m.topic r.id subId then
      List.replicate (b.broadcasts m.topic subId) ⟨some r.id, m.topic, m.payload, m.qos⟩
    else []

section Pass2

variable {E : Externals} {b b' : Broker} {now : Nat} {ttl : Option Nat} {o : Offer}
  {os : Nat → List Offer} {cursors : MaxMap (String × String)}

theorem beyondCursor_eq (b : Broker) (cursors : MaxMap (String × String)) (topic : String)
    (walId x : Nat) : b.beyondCursor cursors topic walId x =
      (b.ledger? x).any fun l => cursors.get (l.clientId, topic) < walId := by
  unfold beyondCursor ledger?
  cases b.subscribers.lookup x <;> rfl

theorem Served.beyondCursor (h : Served now ttl b b' os) (topic : String) (walId x : Nat) :
    b'.beyondCursor cursors topic walId x = b.beyondCursor cursors topic walId x := by
  rw [beyondCursor_eq, beyondCursor_eq, h.ledger]
  cases b.ledger? x <;> rfl

theorem Served.replayOffers (h : Served now ttl b b' os) (x : Nat) :
    b'.replayOffers cursors x = b.replayOffers cursors x := by
  funext r
  unfold Broker.replayOffers broadcasts
  simp only [h.beyondCursor, h.topics]

theorem redeliver_served (E : Externals) (b : Broker) (now : Nat) (o : Offer) (x : Nat) :
    Served now (some b.config.messageTtl) b (b.redeliver E now o x) fun y =>
      if y = x then [o] else [] := by
  unfold redeliver
  cases hx : b.subscribers.lookup x with
  | none => exact .absent _ _ o hx
  | some sub =>
    dsimp only
    split
    · rename_i slot hmode
      exact .one ⟨_, _, _, rfl⟩ hx rfl (.inr ⟨by rw [hmode]; nofun, true, rfl⟩)
    · exact .one ⟨_, _, _, rfl⟩ hx rfl (.inl rfl)

/-- The loop over a topic's subscribers serves those whose cursor is behind. -/
theorem foldl_redeliver_served (E : Externals) (now : Nat) (cursors : MaxMap (String × String))
    (topic : String) (walId : Nat) (o : Offer) (b : Broker) (xs : List Nat) :
    Served now (some b.config.messageTtl) b
      (xs.foldl (fun b x => if b.beyondCursor cursors topic walId x then b.redeliver E now o x
        else b) b)
      fun y => if b.beyondCursor cursors topic walId y then List.replicate (xs.count y) o
        else [] := by
  induction xs generalizing b with
  | nil => exact (Served.refl _ _ b).congr fun y => by simp
  | cons x xs ih =>
    rw [List.foldl_cons]
    by_cases hx : b.beyondCursor cursors topic walId x
    · rw [if_pos hx]
      have h := redeliver_served E b now o x
      refine (h.trans (h.config ▸ ih (b.redeliver E now o x))).congr fun y => ?_
      rw [h.beyondCursor]
      by_cases hy : y = x
      · subst hy
        simp [hx, List.replicate_succ]
      · have hne : ¬ x = y := fun he => hy he.symm
        simp [hy, hne]
    · rw [if_neg hx]
      refine (ih b).congr fun y => ?_
      by_cases hy : y = x
      · subst hy
        simp [hx]
      · have hne : ¬ x = y := fun he => hy he.symm
        simp [hne]

theorem replayRecord_served (E : Externals) (now : Nat) (cursors : MaxMap (String × String))
    (b : Broker) (r : WalRecord) :
    Served now (some b.config.messageTtl) b (replayRecord E now cursors b r) fun y =>
      b.replayOffers cursors y r := by
  unfold replayRecord Broker.replayOffers broadcasts
  cases message? r with
  | none => exact .refl _ _ b
  | some m =>
    dsimp only
    cases b.topics.lookup m.topic with
    | none => exact (Served.refl _ _ b).congr fun y => by simp
    | some topic => exact foldl_redeliver_served ..

theorem foldl_replayRecord_served (E : Externals) (now : Nat)
    (cursors : MaxMap (String × String)) (b : Broker) (records : List WalRecord) :
    Served now (some b.config.messageTtl) b (records.foldl (replayRecord E now cursors) b) fun y =>
      records.flatMap (b.replayOffers cursors y) := by
  induction records generalizing b with
  | nil => exact .refl _ _ b
  | cons r records ih =>
    have h := replayRecord_served E now cursors b r
    refine (h.trans (h.config ▸ ih (replayRecord E now cursors b r))).congr fun y => ?_
    rw [h.replayOffers, List.flatMap_cons]

end Pass2

/-! ## The whole replay -/

/-- **What replay does**: it serves each subscriber what the records that were read
offer, and merges the cursors. -/
theorem replayRecords_served (E : Externals) (now : Nat) (b : Broker)
    (checkpoint : Option CheckpointSnapshot) (records : List WalRecord) :
    ∃ b₁, Served now (some b.config.messageTtl) b b₁ (fun y =>
        records.flatMap (b.replayOffers (cursorsOf checkpoint records) y)) ∧
      b.replayRecords E now checkpoint records =
        { b₁ with ackCursors := b.ackCursors.raiseAll (cursorsOf checkpoint records).pairs } := by
  have h := foldl_replayRecord_served E now (cursorsOf checkpoint records) b records
  refine ⟨_, h, ?_⟩
  rw [← h.ackCursors]
  rfl

theorem ledger?_replayRecords (E : Externals) (now : Nat) (b : Broker)
    (checkpoint : Option CheckpointSnapshot) (records : List WalRecord) (x : Nat) :
    (b.replayRecords E now checkpoint records).ledger? x = (b.ledger? x).map
      (·.offer (records.flatMap (b.replayOffers (cursorsOf checkpoint records) x))) := by
  obtain ⟨b₁, hserved, heq⟩ := replayRecords_served E now b checkpoint records
  rw [heq]
  exact hserved.ledger x

theorem replay_served (E : Externals) (now : Nat) (log : Log) (b : Broker)
    (checkpoint : Option CheckpointSnapshot) :
    ∃ b₁, Served now (some b.config.messageTtl) b b₁ (fun y =>
        (log.iterateFrom (replayStart checkpoint)).flatMap
          (b.replayOffers (replayCursors log checkpoint) y)) ∧
      b.replayFromWalWithCheckpoint E now log checkpoint =
        { b₁ with ackCursors := b.ackCursors.raiseAll (replayCursors log checkpoint).pairs } :=
  replayRecords_served ..

theorem ledger?_replay (E : Externals) (now : Nat) (log : Log) (b : Broker)
    (checkpoint : Option CheckpointSnapshot) (x : Nat) :
    (b.replayFromWalWithCheckpoint E now log checkpoint).ledger? x =
      (b.ledger? x).map (·.offer ((log.iterateFrom (replayStart checkpoint)).flatMap
        (b.replayOffers (replayCursors log checkpoint) x))) :=
  ledger?_replayRecords ..

/-! ## Records that need not be read -/

/-- The same broker but for the order of the entries in its map of cursors. -/
structure Agrees (b b' : Broker) : Prop where
  frame : ∃ cursors, b = { b' with ackCursors := cursors }
  ackCursors : ∀ key, b.ackCursors.lookup key = b'.ackCursors.lookup key

section Skipped

variable {E : Externals} {now : Nat} {b : Broker} {cursors cursors' : MaxMap (String × String)}
  {r : WalRecord} {log : Log} {cp : CheckpointSnapshot}

theorem replayRecord_congr (h : ∀ key, cursors.lookup key = cursors'.lookup key) :
    replayRecord E now cursors = replayRecord E now cursors' := by
  have hbeyond : ∀ b : Broker, b.beyondCursor cursors = b.beyondCursor cursors' := by
    intro b
    funext topic walId x
    unfold beyondCursor MaxMap.get
    cases b.subscribers.lookup x with
    | none => rfl
    | some sub => simp only [h]
  funext b r
  unfold replayRecord
  simp only [hbeyond]

theorem mem_replayOffers {x : Nat} {o : Offer} (h : o ∈ b.replayOffers cursors x r) :
    o.walId = some r.id := by
  unfold replayOffers at h
  split at h
  · cases h
  · split at h
    · rw [List.eq_of_mem_replicate h]
    · cases h

/-- Who is offered nothing by a record: everyone who does not listen to its topic,
and those who have acked this far. -/
theorem replayOffers_eq_nil_iff {x : Nat} : b.replayOffers cursors x r = [] ↔
    ∀ m sub, message? r = some m → b.subscribers.lookup x = some sub →
      0 < b.broadcasts m.topic x → r.id ≤ cursors.get (sub.clientId, m.topic) := by
  unfold replayOffers beyondCursor
  cases message? r with
  | none => simp
  | some m =>
    cases b.subscribers.lookup x with
    | none => simp
    | some sub =>
      simp only [decide_eq_true_eq, ite_eq_right_iff, List.replicate_eq_nil_iff]
      constructor
      · rintro h _ _ ⟨⟩ ⟨⟩ hbroadcast
        by_contra hle
        exact Nat.ne_of_gt hbroadcast (h (Nat.lt_of_not_le hle))
      · intro h hlt
        by_contra hne
        exact Nat.not_le_of_lt hlt (h m sub rfl rfl (Nat.pos_of_ne_zero hne))

theorem foldl_redeliver_behind {topic : String} {walId : Nat} {o : Offer} {xs : List Nat}
    (h : ∀ x ∈ xs, ¬ b.beyondCursor cursors topic walId x) :
    xs.foldl (fun b x => if b.beyondCursor cursors topic walId x then b.redeliver E now o x
      else b) b = b := by
  induction xs with
  | nil => rfl
  | cons x xs ih =>
    rw [List.foldl_cons, if_neg (h x (by simp))]
    exact ih fun y hy => h y (by simp [hy])

/-- A record that offers nobody anything leaves the broker as it is. -/
theorem replayRecord_of_no_offers (h : ∀ x, b.replayOffers cursors x r = []) :
    replayRecord E now cursors b r = b := by
  unfold replayRecord
  unfold replayOffers broadcasts at h
  cases hm : message? r with
  | none => rfl
  | some m =>
    simp only [hm] at h ⊢
    cases ht : b.topics.lookup m.topic with
    | none => rfl
    | some topic =>
      simp only [ht] at h ⊢
      refine foldl_redeliver_behind fun x hx hbeyond => ?_
      have hcount := h x
      rw [if_pos hbeyond, List.replicate_eq_nil_iff, List.count_eq_zero] at hcount
      exact hcount hx

theorem foldl_replayRecord_filter {records : List WalRecord} {p : WalRecord → Bool}
    (h : ∀ r ∈ records, p r = false → ∀ x, b.replayOffers cursors x r = []) :
    (records.filter p).foldl (replayRecord E now cursors) b =
      records.foldl (replayRecord E now cursors) b := by
  induction records generalizing b with
  | nil => rfl
  | cons r records ih =>
    have hrest : ∀ r' ∈ records, p r' = false → ∀ x,
        (replayRecord E now cursors b r).replayOffers cursors x r' = [] := by
      intro r' hr' hp x
      rw [(replayRecord_served E now cursors b r).replayOffers]
      exact h r' (by simp [hr']) hp x
    cases hp : p r with
    | true => rw [List.filter_cons_of_pos hp, List.foldl_cons, List.foldl_cons, ih hrest]
    | false =>
      rw [List.filter_cons_of_neg (by simp [hp]), List.foldl_cons,
        replayRecord_of_no_offers (h r (by simp) hp)]
      exact ih fun r' hr' => h r' (by simp [hr'])

/-- **When a checkpoint only shortens replay**: if the cursors come out the same,
then the outcome does if and only if no record in front of the start offers anything. -/
theorem replay_agrees_iff
    (hcursors : ∀ key, (replayCursors log (some cp)).lookup key =
      (replayCursors log none).lookup key) :
    Agrees (b.replayFromWalWithCheckpoint E now log (some cp)) (b.replayFromWal E now log) ↔
      ∀ r ∈ log.records, r.id < replayStart (some cp) →
        ∀ x, b.replayOffers (replayCursors log none) x r = [] := by
  constructor
  · rintro ⟨⟨cursors, hframe⟩, -⟩ r hr hlt x
    cases hl : b.ledger? x with
    | none =>
      refine replayOffers_eq_nil_iff.mpr fun m sub _ hsub => ?_
      rw [ledger?, hsub] at hl
      cases hl
    | some l =>
      have hledger : (b.replayFromWalWithCheckpoint E now log (some cp)).ledger? x =
          (b.replayFromWal E now log).ledger? x := by
        rw [hframe]
        rfl
      rw [replayFromWal, ledger?_replay, ledger?_replay, hl, Option.map_some, Option.map_some,
        Option.some.injEq] at hledger
      have hoffers := List.append_cancel_left (congrArg Ledger.offered hledger)
      refine List.eq_nil_iff_forall_not_mem.mpr fun o ho => ?_
      -- the same offer comes from a record that was read, and ids are unique
      have hmem : o ∈ (log.iterateFrom (replayStart none)).flatMap
          (b.replayOffers (replayCursors log none) x) := by
        rw [replayStart, log.iterateFrom_one]
        exact List.mem_flatMap_of_mem hr ho
      rw [← hoffers] at hmem
      obtain ⟨r', hr', ho'⟩ := List.mem_flatMap.mp hmem
      have hid : r.id = r'.id :=
        Option.some.inj ((mem_replayOffers ho).symm.trans (mem_replayOffers ho'))
      have hstart := of_decide_eq_true (List.mem_filter.mp hr').2
      omega
  · intro h
    have hfold : (log.iterateFrom (replayStart (some cp))).foldl
        (replayRecord E now (replayCursors log (some cp))) b =
          (log.iterateFrom (replayStart none)).foldl
            (replayRecord E now (replayCursors log none)) b := by
      have hall : log.iterateFrom (replayStart none) = log.records := log.iterateFrom_one
      rw [replayRecord_congr hcursors, hall]
      refine foldl_replayRecord_filter fun r hr hskip => h r hr ?_
      exact Nat.lt_of_not_le (of_decide_eq_false hskip)
    unfold replayCursors at hfold
    unfold replayFromWal replayFromWalWithCheckpoint replayRecords
    dsimp only
    rw [hfold]
    refine ⟨⟨_, rfl⟩, fun key => ?_⟩
    exact MaxMap.lookup_raiseAll_pairs hcursors key

end Skipped

end Broker

end BlipMQ.Core
