import BlipMQ.Core.Entry
import BlipMQ.Lib.Maps

/-!
# Broker — the queue of one subscriber

Messages wait in `pending` and, once handed out at QoS1, in `inflight`
until they are acked. `pending` is a deque of tags: a tag whose entry is
gone from `pending_entries` is passed over when it comes up. Instants and
durations are naturals (nanoseconds); the two binary heaps are kept as the
lists of what is in them.
-/

namespace BlipMQ.Core

structure QueueEntry where
  tag : Nat
  payload : Bytes
  qos : QoSLevel
  walId : Option Nat
  createdAt : Nat
  ttl : Option Nat
  deliveryAttempts : Nat
  nextDeliveryAt : Nat
  deriving DecidableEq, Repr

structure ExpirationEntry where
  expiresAt : Nat
  tag : Nat
  deriving DecidableEq, Repr

structure RetryEntry where
  nextDeliveryAt : Nat
  tag : Nat
  deriving DecidableEq, Repr

/-- Entries by delivery tag. -/
abbrev Entries := AList fun _ : Nat => QueueEntry

structure SubscriberQueue where
  defaultQos : QoSLevel
  capacity : Nat
  nextTag : Nat
  pending : List Nat
  pendingEntries : Entries
  inflight : Entries
  expirationHeap : List ExpirationEntry
  retryHeap : List RetryEntry

namespace SubscriberQueue

def new (defaultQos : QoSLevel) (capacity : Nat) : SubscriberQueue :=
  ⟨defaultQos, capacity, 1, [], ∅, ∅, [], []⟩

/-- The loop that makes room: the oldest pending tags go, with their entries,
until fewer than `capacity` messages are stored or no tag is left. -/
def makeRoom (capacity inflight : Nat) : List Nat → Entries → List Nat × Entries
  | [], entries => ([], entries)
  | tag :: pending, entries =>
    if capacity ≤ entries.entries.length + inflight then
      -- a tag without an entry is popped as well and makes no room
      makeRoom capacity inflight pending (entries.erase tag)
    else (tag :: pending, entries)

def effectiveQos : QoSLevel → QoSLevel → QoSLevel
  | .atLeastOnce, .atLeastOnce => .atLeastOnce
  | _, _ => .atMostOnce

/-- The push of an entry with a TTL on the expiration heap. -/
def pushExpiration (heap : List ExpirationEntry) (entry : QueueEntry) : List ExpirationEntry :=
  match entry.ttl with
  | none => heap
  | some ttl => ⟨entry.createdAt + ttl, entry.tag⟩ :: heap

def enqueue (q : SubscriberQueue) (now : Nat) (payload : Bytes) (messageQos : QoSLevel)
    (walId : Option Nat) (ttl : Option Nat) : SubscriberQueue :=
  let room := makeRoom q.capacity q.inflight.entries.length q.pending q.pendingEntries
  let entry : QueueEntry := {
    tag := q.nextTag
    payload := payload
    qos := effectiveQos q.defaultQos messageQos
    walId := walId
    createdAt := now
    ttl := ttl
    deliveryAttempts := 0
    nextDeliveryAt := now }
  { q with
    nextTag := (q.nextTag + 1) % 2 ^ 64
    pending := room.1 ++ [entry.tag]
    pendingEntries := room.2.insert entry.tag entry
    expirationHeap := pushExpiration q.expirationHeap entry }

/-- A QoS1 message sent on the push path enters `inflight` at once. -/
def registerPushInflight (q : SubscriberQueue) (now tag : Nat) (payload : Bytes)
    (walId : Option Nat) (ttl : Option Nat) : SubscriberQueue :=
  let entry : QueueEntry := {
    tag := tag
    payload := payload
    qos := .atLeastOnce
    walId := walId
    createdAt := now
    ttl := ttl
    deliveryAttempts := 1
    nextDeliveryAt := now }
  { q with
    inflight := q.inflight.insert tag entry
    expirationHeap := pushExpiration q.expirationHeap entry }

def cancelPushInflight (q : SubscriberQueue) (tag : Nat) : SubscriberQueue :=
  { q with inflight := q.inflight.erase tag }

/-- The loop of `dequeue`: the first pending tag that still has an entry. -/
def popPending : List Nat → Entries → List Nat × Option (Nat × QueueEntry)
  | [], _ => ([], none)
  | tag :: pending, entries =>
    match entries.lookup tag with
    | none => popPending pending entries
    | some entry => (pending, some (tag, entry))

/-- `Duration::checked_mul`, the largest duration being `u64::MAX` seconds and
999 999 999 nanoseconds. -/
def checkedMul (duration factor : Nat) : Option Nat :=
  if duration * factor < 2 ^ 64 * 10 ^ 9 then some (duration * factor) else none

/-- `delivery_attempts` is a `u32` that saturates; the factor doubles with each
attempt after the first, at most 31 times. -/
def attempt (entry : QueueEntry) (now baseDelay : Nat) : QueueEntry :=
  let attempts := min (entry.deliveryAttempts + 1) (2 ^ 32 - 1)
  let factor := 2 ^ min (attempts - 1) 31
  { entry with
    deliveryAttempts := attempts
    -- where the product overflows, the base delay itself is taken
    nextDeliveryAt := now + (checkedMul baseDelay factor).getD baseDelay }

/-- The entry handed out, and its tag if it has to be acked. -/
def dequeue (q : SubscriberQueue) (now baseDelay : Nat) :
    SubscriberQueue × Option (QueueEntry × Option Nat) :=
  match popPending q.pending q.pendingEntries with
  | (pending, none) => ({ q with pending := pending }, none)
  | (pending, some (tag, entry)) =>
    let q := { q with pending := pending, pendingEntries := q.pendingEntries.erase tag }
    match entry.qos with
    -- handed out and forgotten: nothing to ack, nothing to retry
    | .atMostOnce => (q, some (entry, none))
    | .atLeastOnce =>
      let entry := attempt entry now baseDelay
      ({ q with
          inflight := q.inflight.insert entry.tag entry
          retryHeap := ⟨entry.nextDeliveryAt, entry.tag⟩ :: q.retryHeap },
        some (entry, some entry.tag))

/-- `None` for a tag that is not in flight, otherwise the WAL id, if any. -/
def ack (q : SubscriberQueue) (tag : Nat) : SubscriberQueue × Option (Option Nat) :=
  ({ q with inflight := q.inflight.erase tag }, (q.inflight.lookup tag).map QueueEntry.walId)

/-! ## The messages a queue stores -/

/-- Every stored entry has `R`. -/
structure Stores (q : SubscriberQueue) (R : QueueEntry → Prop) : Prop where
  pending : ∀ tag e, q.pendingEntries.lookup tag = some e → R e
  inflight : ∀ tag e, q.inflight.lookup tag = some e → R e

/-- A property of the message in an entry, which deliveries do not change. -/
def OfMessage (R : QueueEntry → Prop) : Prop :=
  ∀ e attempts time, R e → R { e with deliveryAttempts := attempts, nextDeliveryAt := time }

section Stores

variable {q : SubscriberQueue} {R : QueueEntry → Prop}

theorem Stores.new (defaultQos : QoSLevel) (capacity : Nat) (R : QueueEntry → Prop) :
    (new defaultQos capacity).Stores R :=
  ⟨fun _ _ h => (nomatch h), fun _ _ h => (nomatch h)⟩

theorem Stores.mono {R' : QueueEntry → Prop} (h : q.Stores R) (himp : ∀ e, R e → R' e) :
    q.Stores R' :=
  ⟨fun tag e hl => himp e (h.pending tag e hl), fun tag e hl => himp e (h.inflight tag e hl)⟩

variable {tag : Nat}

/-- Making room only removes entries. -/
theorem lookup_makeRoom {capacity inflight : Nat} {pending : List Nat} {entries : Entries}
    {e : QueueEntry} (h : (makeRoom capacity inflight pending entries).2.lookup tag = some e) :
    entries.lookup tag = some e := by
  induction pending generalizing entries with
  | nil => exact h
  | cons t pending ih =>
    unfold makeRoom at h
    split at h
    · exact (lookup_erase_eq_some.mp (ih h)).2
    · exact h

theorem Stores.enqueue (h : q.Stores R) {now : Nat} {payload : Bytes} {qos : QoSLevel}
    {walId ttl : Option Nat}
    (hnew : R ⟨q.nextTag, payload, effectiveQos q.defaultQos qos, walId, now, ttl, 0, now⟩) :
    (q.enqueue now payload qos walId ttl).Stores R :=
  ⟨forall_lookup_insert (fun t e hl => h.pending t e (lookup_makeRoom hl)) hnew, h.inflight⟩

theorem Stores.registerPushInflight (h : q.Stores R) {now : Nat} {payload : Bytes}
    {walId ttl : Option Nat} (hnew : R ⟨tag, payload, .atLeastOnce, walId, now, ttl, 1, now⟩) :
    (q.registerPushInflight now tag payload walId ttl).Stores R :=
  ⟨h.pending, forall_lookup_insert h.inflight hnew⟩

theorem Stores.eraseInflight (h : q.Stores R) (tag : Nat) :
    Stores { q with inflight := q.inflight.erase tag } R :=
  ⟨h.pending, forall_lookup_erase h.inflight tag⟩

theorem popPending_some {pending rest : List Nat} {entries : Entries} {entry : QueueEntry}
    (h : popPending pending entries = (rest, some (tag, entry))) :
    entries.lookup tag = some entry := by
  induction pending with
  | nil => cases h
  | cons t pending ih =>
    unfold popPending at h
    split at h
    · exact ih h
    · rename_i hl
      cases h
      exact hl

/-- What is handed out was stored. -/
theorem Stores.dequeue (hR : OfMessage R) (h : q.Stores R) (now baseDelay : Nat) :
    (q.dequeue now baseDelay).1.Stores R ∧
      ∀ d, (q.dequeue now baseDelay).2 = some d → R d.1 := by
  unfold SubscriberQueue.dequeue
  split
  · exact ⟨⟨h.pending, h.inflight⟩, fun d hd => (nomatch hd)⟩
  · rename_i rest tag entry hpop
    have hentry : R entry := h.pending tag entry (popPending_some hpop)
    have herased := forall_lookup_erase h.pending tag
    dsimp only
    split
    · refine ⟨⟨herased, h.inflight⟩, fun d hd => ?_⟩
      cases hd
      exact hentry
    · refine ⟨⟨herased, forall_lookup_insert h.inflight (hR entry _ _ hentry)⟩, fun d hd => ?_⟩
      cases hd
      exact hR entry _ _ hentry

end Stores

/-! ## The log records a queue refers to -/

/-- Every stored message that came from the log has an id with `P`. -/
structure WalIds (q : SubscriberQueue) (P : Nat → Prop) : Prop where
  pending : ∀ tag e i, q.pendingEntries.lookup tag = some e → e.walId = some i → P i
  inflight : ∀ tag e i, q.inflight.lookup tag = some e → e.walId = some i → P i

/-- The id of the entry, if it has one, has `P`. -/
def WalId (P : Nat → Prop) (e : QueueEntry) : Prop := ∀ i, e.walId = some i → P i

theorem ofMessage_walId (P : Nat → Prop) : OfMessage (WalId P) := fun _ _ _ h => h

section WalIds

variable {q : SubscriberQueue} {P : Nat → Prop}

theorem walIds_iff_stores : q.WalIds P ↔ q.Stores (WalId P) :=
  ⟨fun h => ⟨fun t e hl i => h.pending t e i hl, fun t e hl i => h.inflight t e i hl⟩,
    fun h => ⟨fun t e i hl => h.pending t e hl i, fun t e i hl => h.inflight t e hl i⟩⟩

theorem WalIds.new (defaultQos : QoSLevel) (capacity : Nat) (P : Nat → Prop) :
    (new defaultQos capacity).WalIds P :=
  walIds_iff_stores.mpr (.new ..)

theorem WalIds.mono {P' : Nat → Prop} (h : q.WalIds P) (himp : ∀ i, P i → P' i) :
    q.WalIds P' :=
  walIds_iff_stores.mpr ((walIds_iff_stores.mp h).mono fun _ he i hi => himp i (he i hi))

theorem WalIds.enqueue (h : q.WalIds P) {now : Nat} {payload : Bytes} {qos : QoSLevel}
    {walId ttl : Option Nat} (hid : ∀ i, walId = some i → P i) :
    (q.enqueue now payload qos walId ttl).WalIds P :=
  walIds_iff_stores.mpr ((walIds_iff_stores.mp h).enqueue hid)

theorem WalIds.registerPushInflight (h : q.WalIds P) {now tag : Nat} {payload : Bytes}
    {walId ttl : Option Nat} (hid : ∀ i, walId = some i → P i) :
    (q.registerPushInflight now tag payload walId ttl).WalIds P :=
  walIds_iff_stores.mpr ((walIds_iff_stores.mp h).registerPushInflight hid)

theorem WalIds.eraseInflight (h : q.WalIds P) (tag : Nat) :
    WalIds { q with inflight := q.inflight.erase tag } P :=
  walIds_iff_stores.mpr ((walIds_iff_stores.mp h).eraseInflight tag)

theorem WalIds.dequeue (h : q.WalIds P) (now baseDelay : Nat) :
    (q.dequeue now baseDelay).1.WalIds P :=
  walIds_iff_stores.mpr ((walIds_iff_stores.mp h).dequeue (ofMessage_walId P) now baseDelay).1

end WalIds

/-! ## Filling a new queue -/

/-- The entries that wait, in the order they will be handed out. -/
def waiting (q : SubscriberQueue) : List QueueEntry :=
  q.pending.filterMap fun tag => q.pendingEntries.lookup tag

/-- A queue that has taken `n` messages and given none away. -/
structure Filled (q : SubscriberQueue) (n : Nat) : Prop where
  nextTag : q.nextTag = (n + 1) % 2 ^ 64
  pending : ∀ tag ∈ q.pending, tag ≤ n
  entries : ∀ tag ∈ q.pendingEntries, tag ≤ n
  size : q.pendingEntries.entries.length = n
  inflight : q.inflight.entries.length = 0

theorem Filled.new (defaultQos : QoSLevel) (capacity : Nat) : (new defaultQos capacity).Filled 0 :=
  ⟨rfl, nofun, fun _ h => absurd h (AList.notMem_empty _), rfl, rfl⟩

theorem makeRoom_of_lt {capacity inflight : Nat} {pending : List Nat} {entries : Entries}
    (h : entries.entries.length + inflight < capacity) :
    makeRoom capacity inflight pending entries = (pending, entries) := by
  cases pending with
  | nil => rfl
  | cons tag pending =>
    have hnot : ¬ capacity ≤ entries.entries.length + inflight := by omega
    rw [makeRoom, if_neg hnot]

section Filled

variable {q : SubscriberQueue} {n now : Nat} {payload : Bytes} {qos : QoSLevel}
  {walId ttl : Option Nat}

theorem Filled.room (h : q.Filled n) (hcap : n < q.capacity) :
    makeRoom q.capacity q.inflight.entries.length q.pending q.pendingEntries =
      (q.pending, q.pendingEntries) := by
  refine makeRoom_of_lt ?_
  rw [h.size, h.inflight]
  exact hcap

theorem Filled.nextTag_eq (h : q.Filled n) (hn : n + 1 < 2 ^ 64) : q.nextTag = n + 1 := by
  rw [h.nextTag, Nat.mod_eq_of_lt hn]

theorem Filled.notMem (h : q.Filled n) (hn : n + 1 < 2 ^ 64) : q.nextTag ∉ q.pendingEntries := by
  intro hmem
  have hle := h.entries _ hmem
  rw [h.nextTag_eq hn] at hle
  omega

theorem Filled.enqueue (h : q.Filled n) (hcap : n < q.capacity) (hn : n + 1 < 2 ^ 64) :
    (q.enqueue now payload qos walId ttl).Filled (n + 1) := by
  have hroom := h.room hcap
  have htag := h.nextTag_eq hn
  unfold SubscriberQueue.enqueue
  rw [hroom]
  refine ⟨?_, ?_, ?_, ?_, h.inflight⟩
  · show (q.nextTag + 1) % 2 ^ 64 = (n + 1 + 1) % 2 ^ 64
    rw [htag]
  · exact forall_mem_concat (fun tag hmem => Nat.le_succ_of_le (h.pending tag hmem))
      (Nat.le_of_eq htag)
  · intro tag hmem
    rcases (AList.mem_insert _).mp hmem with rfl | hold
    · exact Nat.le_of_eq htag
    · exact Nat.le_succ_of_le (h.entries tag hold)
  · show (q.pendingEntries.insert q.nextTag _).entries.length = n + 1
    rw [AList.entries_insert_of_notMem (h.notMem hn), List.length_cons, h.size]

/-- A message that finds room comes last. -/
theorem Filled.waiting_enqueue (h : q.Filled n) (hcap : n < q.capacity) (hn : n + 1 < 2 ^ 64) :
    (q.enqueue now payload qos walId ttl).waiting = q.waiting ++
      [⟨n + 1, payload, effectiveQos q.defaultQos qos, walId, now, ttl, 0, now⟩] := by
  have hroom := h.room hcap
  have hnext := h.nextTag_eq hn
  unfold SubscriberQueue.enqueue waiting
  rw [hroom]
  dsimp only
  rw [List.filterMap_append]
  congr 1
  · refine List.filterMap_congr fun tag htag => ?_
    have hle := h.pending tag htag
    have hne : tag ≠ q.nextTag := by omega
    rw [AList.lookup_insert_ne hne]
  · rw [List.filterMap_cons, AList.lookup_insert, hnext]
    rfl

end Filled

end SubscriberQueue

end BlipMQ.Core
