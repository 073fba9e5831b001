import BlipMQ.Core.Scan
import BlipMQ.Lib.Machine

/-!
# Broker — how much a queue stores

`enqueue` makes room among the messages that wait, but what it counts
against the capacity includes the messages in flight. The bound therefore
holds exactly as long as messages arrive while fewer than `capacity` are in
flight; every other operation leaves at most as much stored as before.
Nothing here depends on tags being distinct, so the counter may wrap.
-/

namespace BlipMQ.Core

namespace SubscriberQueue

/-- The number of messages stored, waiting or in flight. -/
def stored (q : SubscriberQueue) : Nat :=
  q.pendingEntries.entries.length + q.inflight.entries.length

/-- A queue of this capacity in which every entry that waits has its tag in
`pending`, and at most `n` messages are stored. -/
structure Holds (q : SubscriberQueue) (capacity n : Nat) : Prop where
  capacity_eq : q.capacity = capacity
  listed : ∀ t ∈ q.pendingEntries, t ∈ q.pending
  stored_le : q.stored ≤ n

theorem Holds.new (defaultQos : QoSLevel) (capacity : Nat) :
    (new defaultQos capacity).Holds capacity 0 where
  capacity_eq := rfl
  listed _ h := absurd h (AList.notMem_empty _)
  stored_le := Nat.le_refl 0

section Holds

variable {q : SubscriberQueue} {capacity n : Nat}

/-! ## What arrives -/

/-- Once the loop is through, there is room or nothing waits any more. -/
theorem makeRoom_size (capacity inflight : Nat) {pending : List Nat} {m : Entries}
    (hlisted : ∀ t ∈ m, t ∈ pending) :
    (∀ t ∈ (makeRoom capacity inflight pending m).2,
        t ∈ (makeRoom capacity inflight pending m).1) ∧
      ((makeRoom capacity inflight pending m).2.entries.length + inflight < capacity ∨
        (makeRoom capacity inflight pending m).2.entries.length = 0 ∧ capacity ≤ inflight) := by
  induction pending generalizing m with
  | nil =>
    have hempty : m.entries.length = 0 := by
      by_contra hne
      obtain ⟨x, hx⟩ := List.exists_mem_of_length_pos (Nat.pos_of_ne_zero hne)
      exact absurd (hlisted x.1 (List.mem_map_of_mem hx)) List.not_mem_nil
    refine ⟨hlisted, ?_⟩
    show m.entries.length + inflight < capacity ∨ m.entries.length = 0 ∧ capacity ≤ inflight
    omega
  | cons tag pending ih =>
    unfold makeRoom
    by_cases hfull : capacity ≤ m.entries.length + inflight
    · rw [if_pos hfull]
      apply ih
      intro t ht
      obtain ⟨hne, hmem⟩ := AList.mem_erase.mp ht
      exact List.mem_of_ne_of_mem hne (hlisted t hmem)
    · rw [if_neg hfull]
      exact ⟨hlisted, .inl (Nat.lt_of_not_le hfull)⟩

section Enqueue

variable (now : Nat) (payload : Bytes) (qos : QoSLevel) (walId ttl : Option Nat)

theorem Holds.listed_enqueue (h : q.Holds capacity n) :
    ∀ t ∈ (q.enqueue now payload qos walId ttl).pendingEntries,
      t ∈ (q.enqueue now payload qos walId ttl).pending := by
  have hroom := (makeRoom_size q.capacity q.inflight.entries.length h.listed).1
  intro t ht
  rcases (AList.mem_insert _).mp ht with rfl | hold
  · exact List.mem_append_right _ (List.mem_singleton_self _)
  · exact List.mem_append_left _ (hroom t hold)

/-- **A message that arrives fits exactly if not all places are taken by messages in
flight**, which do not make room. -/
theorem Holds.stored_enqueue (h : q.Holds capacity n) :
    (q.enqueue now payload qos walId ttl).stored ≤ capacity ↔
      q.inflight.entries.length < capacity := by
  have hcapacity := h.capacity_eq
  have hroom : q.room.2.entries.length + q.inflight.entries.length < q.capacity ∨
      q.room.2.entries.length = 0 ∧ q.capacity ≤ q.inflight.entries.length :=
    (makeRoom_size q.capacity q.inflight.entries.length h.listed).2
  let entry := q.arrival now payload qos walId ttl
  have hinsert := length_insert_le q.room.2 entry.tag entry
  have hpos : 0 < (q.room.2.insert entry.tag entry).entries.length := Nat.succ_pos _
  show (q.room.2.insert entry.tag entry).entries.length + q.inflight.entries.length ≤ capacity ↔ _
  constructor
  · intro hle
    omega
  · intro hlt
    omega

end Enqueue

/-! ## What is handed out or leaves -/

theorem Holds.ack (h : q.Holds capacity n) (tag : Nat) : (q.ack tag).1.Holds capacity n where
  capacity_eq := h.capacity_eq
  listed := h.listed
  stored_le := (Nat.add_le_add_left (length_erase_le q.inflight tag) _).trans h.stored_le

/-- A message handed out leaves one place and takes another, at most. -/
theorem Holds.dequeue (h : q.Holds capacity n) (now baseDelay : Nat) :
    (q.dequeue now baseDelay).1.Holds capacity n := by
  have hstored := h.stored_le
  unfold stored at hstored
  rcases q.dequeue_cases now baseDelay with
    ⟨hnone, heq⟩ | ⟨dead, t, rest, e, hsplit, hdead, hl, -, heq⟩
  · rw [heq]
    refine ⟨h.capacity_eq, fun t ht => ?_, hstored⟩
    have hlookup := List.filterMap_eq_nil_iff.mp hnone t (h.listed t ht)
    exact absurd ht (AList.lookup_eq_none.mp hlookup)
  · have hmem : t ∈ q.pendingEntries := AList.lookup_isSome.mp (by rw [hl]; rfl)
    have herase := length_erase_of_mem hmem
    have hinsert := length_insert_le q.inflight e.tag (attempt e now baseDelay)
    -- the tags before `t` have no entry, so those that stay are behind it
    have hlisted : ∀ s ∈ q.pendingEntries.erase t, s ∈ rest := by
      intro s hs
      obtain ⟨hne, hsmem⟩ := AList.mem_erase.mp hs
      have hin := h.listed s hsmem
      rw [hsplit] at hin
      rcases List.mem_append.mp hin with hin | hin
      · exact absurd hsmem (AList.lookup_eq_none.mp (hdead s hin))
      · exact List.mem_of_ne_of_mem hne hin
    rw [heq]
    cases e.qos with
    | atMostOnce =>
      refine ⟨h.capacity_eq, hlisted, ?_⟩
      show (q.pendingEntries.erase t).entries.length + q.inflight.entries.length ≤ n
      omega
    | atLeastOnce =>
      refine ⟨h.capacity_eq, hlisted, ?_⟩
      show (q.pendingEntries.erase t).entries.length +
        (q.inflight.insert e.tag (attempt e now baseDelay)).entries.length ≤ n
      omega

/-- One item of the expiration heap removes an entry or nothing. -/
theorem Holds.expireOne {s : Sweep} (h : s.1.Holds capacity n) (x : ExpirationEntry) :
    (expireOne s x).1.Holds capacity n := by
  have hpending : Holds { s.1 with pendingEntries := s.1.pendingEntries.erase x.tag } capacity n :=
    ⟨h.capacity_eq, fun t ht => h.listed t (AList.mem_erase.mp ht).2,
      (Nat.add_le_add_right (length_erase_le _ _) _).trans h.stored_le⟩
  unfold SubscriberQueue.expireOne
  cases s.1.pendingEntries.lookup x.tag with
  | some e =>
    dsimp only
    by_cases he : e.expiresAt = some x.expiresAt
    · rw [if_pos he]
      exact hpending
    · rw [if_neg he]
      exact h
  | none =>
    cases s.1.inflight.lookup x.tag with
    | none => exact h
    | some e =>
      dsimp only
      by_cases he : e.expiresAt = some x.expiresAt
      · rw [if_pos he]
        exact h.ack x.tag
      · rw [if_neg he]
        exact h

/-- One item of the retry heap removes an entry in flight or moves it. -/
theorem Holds.retryOne {s : Sweep} (h : s.1.Holds capacity n) (now maxRetries : Nat)
    (x : RetryEntry) : (retryOne now maxRetries s x).1.Holds capacity n := by
  unfold SubscriberQueue.retryOne
  cases hl : s.1.inflight.lookup x.tag with
  | none => exact h
  | some e =>
    dsimp only
    by_cases hstale : e.nextDeliveryAt ≠ x.nextDeliveryAt
    · rw [if_pos hstale]
      exact h
    rw [if_neg hstale]
    by_cases hmax : maxRetries ≤ e.deliveryAttempts
    · rw [if_pos hmax]
      exact h.ack x.tag
    rw [if_neg hmax]
    refine ⟨h.capacity_eq, ?_, ?_⟩
    · intro t ht
      rcases (AList.mem_insert _).mp ht with rfl | hold
      · exact List.mem_append_right _ (List.mem_singleton_self _)
      · exact List.mem_append_left _ (h.listed t hold)
    · have hmem : x.tag ∈ s.1.inflight := AList.lookup_isSome.mp (by rw [hl]; rfl)
      have herase := length_erase_of_mem hmem
      have hinsert := length_insert_le s.1.pendingEntries e.tag (e.retryAt now)
      have hstored := h.stored_le
      unfold stored at hstored ⊢
      dsimp only
      omega

theorem Holds.sweep (h : q.Holds capacity n) (now maxRetries : Nat) :
    (q.sweep now maxRetries).1.Holds capacity n := by
  have hexpired : (expireLoop now q).1.Holds capacity n := by
    have hfold :
        ((q.dueExpirations now).foldl SubscriberQueue.expireOne (q, [])).1.Holds capacity n :=
      List.foldlRecOn (motive := fun s : Sweep => s.1.Holds capacity n) _ _ h
        fun _ hs x _ => hs.expireOne x
    rw [expireLoop_foldl]
    exact ⟨hfold.capacity_eq, hfold.listed, hfold.stored_le⟩
  have hfold : (((expireLoop now q).1.dueRetries now).foldl
      (SubscriberQueue.retryOne now maxRetries) (expireLoop now q)).1.Holds capacity n :=
    List.foldlRecOn (motive := fun s : Sweep => s.1.Holds capacity n) _ _ hexpired
      fun _ hs x _ => hs.retryOne now maxRetries x
  unfold SubscriberQueue.sweep
  rw [retryLoop_foldl]
  exact ⟨hfold.capacity_eq, hfold.listed, hfold.stored_le⟩

/-! ## Runs -/

theorem Holds.act (h : q.Holds capacity n) (a : QueueAction) :
    (q.act a).Holds capacity (q.act a).stored := by
  have hexact : ∀ {q' : SubscriberQueue}, q'.Holds capacity n → q'.Holds capacity q'.stored :=
    fun h' => ⟨h'.capacity_eq, h'.listed, Nat.le_refl _⟩
  cases a with
  | enqueue now payload qos walId ttl =>
    exact ⟨h.capacity_eq, h.listed_enqueue now payload qos walId ttl, Nat.le_refl _⟩
  | dequeue now baseDelay => exact hexact (h.dequeue now baseDelay)
  | ack tag => exact hexact (h.ack tag)
  | maintenanceTick now maxRetries => exact hexact (h.sweep now maxRetries)

/-- The one operation that can break the bound is the arrival of a message. -/
theorem Holds.stored_act (h : q.Holds capacity capacity) (a : QueueAction) :
    (q.act a).stored ≤ capacity ↔
      (a.isEnqueue = true → q.inflight.entries.length < capacity) := by
  cases a with
  | enqueue now payload qos walId ttl =>
    rw [← h.stored_enqueue now payload qos walId ttl]
    exact ⟨fun hle _ => hle, fun himp => himp rfl⟩
  | dequeue now baseDelay =>
    exact iff_of_true (h.dequeue now baseDelay).stored_le (by intro hq; cases hq)
  | ack tag => exact iff_of_true (h.ack tag).stored_le (by intro hq; cases hq)
  | maintenanceTick now maxRetries =>
    exact iff_of_true (h.sweep now maxRetries).stored_le (by intro hq; cases hq)

end Holds

/-- **The queue stays within its capacity exactly as long as every message arrives
while fewer than `capacity` messages are in flight.** -/
theorem stored_le_capacity_iff (defaultQos : QoSLevel) (capacity : Nat)
    (acts : List QueueAction) :
    (∀ done, done <+: acts →
        (done.foldl act (new defaultQos capacity)).stored ≤ capacity) ↔
      ∀ done a, done ++ [a] <+: acts → a.isEnqueue = true →
        (done.foldl act (new defaultQos capacity)).inflight.entries.length < capacity := by
  have h := Holds.new defaultQos capacity
  -- how much is stored is the bound itself; of the rest every operation takes care
  refine bounded_along_iff (P := fun q : SubscriberQueue => q.Holds capacity q.stored)
    (Q := fun q => q.stored ≤ capacity)
    (C := fun q a => a.isEnqueue = true → q.inflight.entries.length < capacity)
    (fun q a _ hq => hq.act a) (fun q a _ hq hle => ?_) ⟨h.capacity_eq, h.listed, Nat.le_refl _⟩
    (h.stored_le.trans (Nat.zero_le _))
  exact Holds.stored_act ⟨hq.capacity_eq, hq.listed, hle⟩ a

/-- One message is in flight, and the capacity is one: the next message is stored
all the same. -/
theorem stored_beyond_capacity :
    let acts : List QueueAction := [.enqueue 0 [1] .atLeastOnce none none, .dequeue 0 10,
      .enqueue 0 [2] .atLeastOnce none none]
    (acts.foldl act (new .atLeastOnce 1)).stored = 2 := by
  decide

end SubscriberQueue

end BlipMQ.Core
