import Mathlib.Data.List.Infix
import BlipMQ.Core.Capacity

/-!
# Broker — how long the deque of tags gets

An entry that expires leaves its tag in `pending`. The loop of `enqueue` pops
tags only while `capacity` messages are stored, so a deque that is full of
tags whose entries are gone takes in one more with every message. The
condition for staying within the capacity does not depend on tags being
distinct, so the counter may wrap.
-/

namespace BlipMQ.Core

def QueueAction.isDequeue : QueueAction → Bool
  | .dequeue .. => true
  | _ => false

namespace SubscriberQueue

/-! ## What the operations do to the deque -/

theorem makeRoom_length_le (capacity inflight : Nat) (pending : List Nat) (m : Entries) :
    (makeRoom capacity inflight pending m).1.length ≤ pending.length := by
  induction pending generalizing m with
  | nil => exact Nat.le_refl _
  | cons tag pending ih =>
    unfold makeRoom
    split
    · exact Nat.le_succ_of_le (ih _)
    · exact Nat.le_refl _

variable {pending : List Nat}

/-- At the capacity at least one tag is popped, if there is one. -/
theorem makeRoom_length_lt {capacity inflight : Nat} {m : Entries}
    (hfull : capacity ≤ m.entries.length + inflight) (hpos : 0 < pending.length) :
    (makeRoom capacity inflight pending m).1.length < pending.length := by
  cases pending with
  | nil => cases hpos
  | cons tag pending =>
    unfold makeRoom
    rw [if_pos hfull]
    exact Nat.lt_succ_of_le (makeRoom_length_le ..)

/-- **A deque within the bound stays within it exactly if it is not full, or full
while `capacity` messages are stored.** -/
theorem length_pending_enqueue {q : SubscriberQueue} (hpos : 0 < q.capacity)
    (hle : q.pending.length ≤ q.capacity) (now : Nat) (payload : Bytes) (qos : QoSLevel)
    (walId ttl : Option Nat) :
    (q.enqueue now payload qos walId ttl).pending.length ≤ q.capacity ↔
      (q.pending.length = q.capacity → q.capacity ≤ q.stored) := by
  have hlen : (q.enqueue now payload qos walId ttl).pending.length = q.room.1.length + 1 :=
    List.length_append
  rw [hlen]
  constructor
  · intro hroom hfull
    by_contra hlt
    rw [SubscriberQueue.room, makeRoom_of_lt (Nat.lt_of_not_le hlt)] at hroom
    dsimp only at hroom
    omega
  · intro hstored
    rcases Nat.lt_or_eq_of_le hle with hlt | hfull
    · have hroom : q.room.1.length ≤ q.pending.length := makeRoom_length_le ..
      omega
    · have hroom : q.room.1.length < q.pending.length :=
        makeRoom_length_lt (hstored hfull) (by omega)
      omega

theorem length_pending_dequeue (q : SubscriberQueue) (now baseDelay : Nat) :
    (q.dequeue now baseDelay).1.pending.length ≤ q.pending.length := by
  rcases q.dequeue_cases now baseDelay with
    ⟨-, heq⟩ | ⟨dead, t, rest, e, hsplit, -, -, -, heq⟩
  · rw [heq]
    exact Nat.zero_le _
  · have hrest : (q.dequeue now baseDelay).1.pending = rest := by
      rw [heq]
      cases e.qos <;> rfl
    rw [hrest, hsplit, List.length_append, List.length_cons]
    omega

/-- A tag is appended for each entry that an item of the retry heap is about, as
long as it has attempts left; the tags of the items need not be distinct. -/
theorem foldl_retryOne_pending (now maxRetries : Nat) (items : List RetryEntry) (s : Sweep) :
    let out := items.foldl (retryOne now maxRetries) s
    out.1.inflight = keep s.1.inflight (spares RetryEntry.tag retriesBy items) ∧
      out.1.pending.length = s.1.pending.length + s.1.inflight.entries.countP fun d =>
        !spares RetryEntry.tag retriesBy items d.1 d.2 && d.2.deliveryAttempts < maxRetries := by
  induction items generalizing s with
  | nil => exact ⟨(keep_spares_nil _).symm, by simp [spares]⟩
  | cons x items ih =>
    obtain ⟨q, ds⟩ := s
    -- what this item puts back is the entry under its tag
    have hback : ((q.retrying x).toList.filter (·.deliveryAttempts < maxRetries)).length =
        q.inflight.entries.countP fun d => !spares RetryEntry.tag retriesBy [x] d.1 d.2 &&
          d.2.deliveryAttempts < maxRetries := by
      have hhit : ∀ t e, (!spares RetryEntry.tag retriesBy [x] t e) =
          (decide (t = x.tag) && retriesBy x e) := by
        intro t e
        simp [spares, eq_comm]
      simp only [hhit, Bool.and_assoc]
      rw [countP_key q.inflight x.tag fun e => retriesBy x e && e.deliveryAttempts < maxRetries,
        ← List.countP_eq_length_filter, retrying]
      cases q.inflight.lookup x.tag with
      | none => rfl
      | some e => cases hx : retriesBy x e <;> simp [Option.filter, hx]
    rw [List.foldl_cons, retryOne_eq]
    refine ⟨(ih _).1.trans (keep_spares_cons ..), (ih _).2.trans ?_⟩
    simp only [putBack, withoutRetrying, List.length_append, List.length_map, hback, keep,
      List.countP_filter, Nat.add_assoc]
    congr 1
    refine ((List.countP_eq_countP_filter_add q.inflight.entries _ fun d =>
      !spares RetryEntry.tag retriesBy [x] d.1 d.2).trans ?_).symm
    rw [List.countP_filter, List.countP_filter]
    congr 2 <;> funext d <;> rw [spares_cons]
    · cases spares RetryEntry.tag retriesBy [x] d.1 d.2 <;> simp
    · cases spares RetryEntry.tag retriesBy [x] d.1 d.2 <;> simp

/-- How many messages the tick puts back to be delivered again: of what its expiry
loop leaves in flight, the entries whose own item in the retry heap is due and
that have attempts left. -/
def retriedBy (q : SubscriberQueue) (now maxRetries : Nat) : Nat :=
  (expireLoop now q).1.inflight.entries.countP fun d =>
    decide (⟨d.2.nextDeliveryAt, d.1⟩ ∈ q.retryHeap ∧ d.2.nextDeliveryAt ≤ now) &&
      d.2.deliveryAttempts < maxRetries

theorem length_pending_tick (q : SubscriberQueue) (now maxRetries : Nat) :
    (q.maintenanceTick now maxRetries).1.pending.length =
      q.pending.length + q.retriedBy now maxRetries := by
  have hexpires := q.expireLoop_expires now
  change (retryLoop now maxRetries (expireLoop now q)).1.pending.length = _
  rw [retryLoop_foldl]
  refine (foldl_retryOne_pending now maxRetries _ (expireLoop now q)).2.trans ?_
  simp only [spares_retrying, hexpires.pending, hexpires.retryHeap, Bool.not_not]
  rfl

theorem length_inflight_tick (q : SubscriberQueue) (now maxRetries : Nat) :
    (q.maintenanceTick now maxRetries).1.inflight.entries.length ≤ q.inflight.entries.length := by
  change (retryLoop now maxRetries (expireLoop now q)).1.inflight.entries.length ≤ _
  rw [retryLoop_foldl]
  dsimp only
  rw [(foldl_retryOne_pending now maxRetries _ (expireLoop now q)).1]
  exact (List.length_filter_le _ _).trans (q.expireLoop_expires now).length_inflight_le

theorem retriedBy_le (q : SubscriberQueue) (now maxRetries : Nat) :
    q.retriedBy now maxRetries ≤ q.inflight.entries.length :=
  List.countP_le_length.trans (q.expireLoop_expires now).length_inflight_le

/-- The in-flight entries that a tick puts back, as the queue before it shows them. -/
def retriable (q : SubscriberQueue) (now maxRetries : Nat) : List QueueEntry :=
  q.contents.inflight.filter fun e =>
    !e.expired now && e.due now && e.deliveryAttempts < maxRetries

/-- As long as tags are distinct every delivery in flight has its item in the heap. -/
theorem Inv.retriedBy_eq {q : SubscriberQueue} {n : Nat} (h : q.Inv n) (now maxRetries : Nat) :
    q.retriedBy now maxRetries = (q.retriable now maxRetries).length := by
  have hleft : (q.unexpired now).inflight.entries =
      q.inflight.entries.filter fun d => !d.2.expired now := rfl
  rw [retriedBy, expireLoop_eq h, hleft, List.countP_filter, retriable,
    ← List.countP_eq_length_filter, contents, List.countP_map]
  refine List.countP_congr fun d hd => ?_
  have hitem := h.retry d.1 d.2 (AList.mem_lookup_iff.mpr hd)
  simp only [Function.comp_apply, QueueEntry.due, hitem, true_and, Bool.and_eq_true]
  tauto

/-! ## Runs -/

/-- What keeps the deque within the bound at one operation: a message that arrives
finds fewer tags than `capacity`, or as many with `capacity` messages stored;
and a tick puts back no more than there is room for. -/
def KeepsShort (capacity : Nat) (q : SubscriberQueue) : QueueAction → Prop
  | .enqueue .. => q.pending.length = capacity → capacity ≤ q.stored
  | .maintenanceTick now maxRetries => q.pending.length + q.retriedBy now maxRetries ≤ capacity
  | .dequeue .. | .ack _ => True

theorem Holds.keepsShort_iff {q : SubscriberQueue} {capacity : Nat}
    (h : q.Holds capacity q.stored) (hpos : 0 < capacity) (hle : q.pending.length ≤ capacity)
    (a : QueueAction) : (q.act a).pending.length ≤ capacity ↔ q.KeepsShort capacity a := by
  obtain ⟨rfl, -, -⟩ := h
  cases a with
  | enqueue now payload qos walId ttl =>
    exact length_pending_enqueue hpos hle now payload qos walId ttl
  | dequeue now baseDelay =>
    exact iff_of_true ((q.length_pending_dequeue now baseDelay).trans hle) trivial
  | ack tag => exact iff_of_true hle trivial
  | maintenanceTick now maxRetries =>
    change (q.maintenanceTick now maxRetries).1.pending.length ≤ q.capacity ↔ _
    rw [q.length_pending_tick now maxRetries]
    rfl

section Unpolled

variable {q : SubscriberQueue} {capacity : Nat}

/-- While nobody polls nothing is in flight. -/
theorem inflight_act_nil (h : q.inflight.entries = []) {a : QueueAction}
    (hpoll : a.isDequeue = false) : (q.act a).inflight.entries = [] := by
  cases a with
  | enqueue now payload qos walId ttl => exact h
  | dequeue now baseDelay => cases hpoll
  | ack tag =>
    have hle := length_erase_le q.inflight tag
    rw [h] at hle
    exact List.eq_nil_of_length_eq_zero (Nat.le_zero.mp hle)
  | maintenanceTick now maxRetries =>
    have hle := q.length_inflight_tick now maxRetries
    rw [h] at hle
    exact List.eq_nil_of_length_eq_zero (Nat.le_zero.mp hle)

/-- Then a tick appends no tag, and a deque is full of live tags if as many messages
wait. -/
theorem Holds.keepsShort_unpolled (h : q.Holds capacity q.stored)
    (hle : q.pending.length ≤ capacity) (hnone : q.inflight.entries = []) (a : QueueAction) :
    q.KeepsShort capacity a ↔ (a.isEnqueue = true → q.pending.length = capacity →
      q.pendingEntries.entries.length = capacity) := by
  cases a with
  | enqueue now payload qos walId ttl =>
    have hwaiting := length_le_of_keys_subset h.listed
    simp only [KeepsShort, QueueAction.isEnqueue, stored, hnone, List.length_nil, forall_const]
    constructor
    · intro hstored hfull
      have := hstored hfull
      omega
    · intro hstored hfull
      have := hstored hfull
      omega
  | dequeue now baseDelay => simp [KeepsShort, QueueAction.isEnqueue]
  | ack tag => simp [KeepsShort, QueueAction.isEnqueue]
  | maintenanceTick now maxRetries =>
    have hback := q.retriedBy_le now maxRetries
    rw [hnone, List.length_nil] at hback
    simp only [KeepsShort, QueueAction.isEnqueue, Bool.false_eq_true, false_implies, iff_true]
    omega

end Unpolled

/-- **When the deque of tags stays within the capacity.** It does so at every point
of a run exactly if each message that finds `capacity` tags in the deque finds
as many messages stored, and no tick puts back more messages than there is room
for. Before the counter wraps, a tick puts back the in-flight entries that are
due, have not expired and have attempts left. While nobody polls, the condition
is that each message that finds `capacity` tags finds an entry under every one
of them. -/
theorem pending_le_capacity_iff (defaultQos : QoSLevel) (capacity : Nat) (hpos : 1 ≤ capacity)
    (acts : List QueueAction) :
    let before (done : List QueueAction) := done.foldl act (new defaultQos capacity)
    ((∀ done, done <+: acts → (before done).pending.length ≤ capacity) ↔
      ∀ done a, done ++ [a] <+: acts → (before done).KeepsShort capacity a) ∧
    (enqueues acts < 2 ^ 64 → ∀ done, done <+: acts → ∀ now maxRetries,
      (before done).retriedBy now maxRetries = ((before done).retriable now maxRetries).length) ∧
    ((∀ a ∈ acts, a.isDequeue = false) →
      ((∀ done, done <+: acts → (before done).pending.length ≤ capacity) ↔
        ∀ done a, done ++ [a] <+: acts → a.isEnqueue = true →
          (before done).pending.length = capacity →
          (before done).pendingEntries.entries.length = capacity)) := by
  intro before
  have hnew := Holds.new defaultQos capacity
  refine ⟨?_, ?_, ?_⟩
  · exact bounded_along_iff (P := fun q : SubscriberQueue => q.Holds capacity q.stored)
      (Q := fun q => q.pending.length ≤ capacity) (C := fun q a => q.KeepsShort capacity a)
      (fun q a _ hq => hq.act a) (fun q a _ hq hle => hq.keepsShort_iff hpos hle a)
      ⟨rfl, hnew.listed, Nat.le_refl _⟩ (Nat.zero_le _)
  · rintro hlt done ⟨rest, rfl⟩ now maxRetries
    rw [enqueues_append] at hlt
    exact ((Inv.new defaultQos capacity).run done (by omega)).retriedBy_eq now maxRetries
  · intro hpoll
    refine bounded_along_iff
      (P := fun q : SubscriberQueue => q.Holds capacity q.stored ∧ q.inflight.entries = [])
      (Q := fun q => q.pending.length ≤ capacity)
      (C := fun q a => a.isEnqueue = true → q.pending.length = capacity →
        q.pendingEntries.entries.length = capacity)
      (fun q a ha hq => ⟨hq.1.act a, inflight_act_nil hq.2 (hpoll a ha)⟩) (fun q a _ hq hle => ?_)
      ⟨⟨rfl, hnew.listed, Nat.le_refl _⟩, rfl⟩ (Nat.zero_le _)
    rw [← hq.1.keepsShort_unpolled hle hq.2]
    exact hq.1.keepsShort_iff hpos hle a

/-- Capacity two: the tag of the message that has expired and a live one fit. -/
theorem pending_le_capacity_two :
    let acts : List QueueAction := [.enqueue 0 [1] .atMostOnce none (some 5),
      .maintenanceTick 5 3, .enqueue 6 [2] .atMostOnce none (some 5)]
    1 ≤ 2 ∧ ∀ done a, done ++ [a] <+: acts → a.isEnqueue = true →
      (done.foldl act (new .atMostOnce 2)).pending.length = 2 →
      (done.foldl act (new .atMostOnce 2)).pendingEntries.entries.length = 2 := by
  intro acts
  have hall : ∀ done ∈ acts.inits, (done.foldl act (new .atMostOnce 2)).pending.length ≤ 2 := by
    decide
  refine ⟨by decide, ((pending_le_capacity_iff .atMostOnce 2 (by decide) acts).2.2 ?_).mp ?_⟩
  · decide
  · intro done hdone
    exact hall done ((List.mem_inits _ _).mpr hdone)

/-- Capacity one: a message expires, its tag stays, and the next message adds another. -/
theorem pending_beyond_capacity :
    let acts : List QueueAction := [.enqueue 0 [1] .atMostOnce none (some 5),
      .maintenanceTick 5 3, .enqueue 6 [2] .atMostOnce none (some 5)]
    (acts.foldl act (new .atMostOnce 1)).pending = [1, 2] ∧
      (acts.foldl act (new .atMostOnce 1)).stored = 1 := by
  decide

/-! ## Messages nobody polls -/

/-- Nothing is stored, and `n` messages that have expired have left their tags. -/
structure Leaked (capacity n : Nat) (q : SubscriberQueue) : Prop where
  inv : q.Inv n
  holds : q.Holds capacity q.stored
  empty : q.contents = ⟨[], []⟩
  length : q.pending.length = n

/-- A message arrives, and the first tick after its TTL finds it unread. -/
def unread (maxRetries now ttl : Nat) (payload : Bytes) (qos : QoSLevel) : List QueueAction :=
  [.enqueue now payload qos none (some ttl), .maintenanceTick (now + ttl) maxRetries]

section Leaked

variable {capacity n : Nat} {q : SubscriberQueue}

theorem length_contents_inflight (q : SubscriberQueue) :
    q.contents.inflight.length = q.inflight.entries.length :=
  List.length_map _

theorem Leaked.stored_eq_zero (h : q.Leaked capacity n) : q.stored = 0 := by
  have hwaiting : q.pendingEntries.entries.length = q.contents.waiting.length := by
    rw [← List.length_map Sigma.snd]
    exact h.inv.waiting_perm.length_eq.symm
  rw [stored, hwaiting, ← q.length_contents_inflight, h.empty]
  rfl

theorem Leaked.unread (h : q.Leaked capacity n) (hpos : 1 ≤ capacity) (hn : n + 1 < 2 ^ 64)
    (maxRetries now ttl : Nat) (payload : Bytes) (qos : QoSLevel) :
    ((unread maxRetries now ttl payload qos).foldl act q).Leaked capacity (n + 1) := by
  let full := q.enqueue now payload qos none (some ttl)
  have hcontents : full.contents = ⟨[q.arrival now payload qos none (some ttl)], []⟩ := by
    rewrite [contents_enqueue h.inv hn, h.empty]
    rfl
  have hholds := (h.holds.act (.enqueue now payload qos none (some ttl))).act
    (.maintenanceTick (now + ttl) maxRetries)
  obtain ⟨hinv, hscan, -⟩ :=
    (h.inv.enqueue hn now payload qos none (some ttl)).sweep (now + ttl) maxRetries
  refine ⟨hinv, hholds, hscan.trans ?_, ?_⟩
  · have hexpired : (q.arrival now payload qos none (some ttl)).expired (now + ttl) = true :=
      decide_eq_true (Nat.le_refl _)
    change (full.contents.scan (now + ttl) maxRetries).1 = _
    rw [hcontents]
    simp [Contents.scan, hexpired]
  · -- no tag is popped, since nothing is stored
    have hfree : q.stored < q.capacity := by
      rw [h.stored_eq_zero, h.holds.capacity_eq]
      exact hpos
    have hlen : full.pending.length = q.room.1.length + 1 := List.length_append
    rw [room, makeRoom_of_lt hfree, h.length] at hlen
    have hflight : full.inflight.entries.length = 0 := by
      rw [← full.length_contents_inflight, hcontents]
      rfl
    have hback := full.retriedBy_le (now + ttl) maxRetries
    change (full.maintenanceTick (now + ttl) maxRetries).1.pending.length = n + 1
    rw [full.length_pending_tick]
    omega

end Leaked

/-- **No capacity bounds the deque.** Of messages that expire unread one after the
other, each leaves its tag. -/
theorem pending_grows (defaultQos : QoSLevel) {capacity : Nat} (hpos : 1 ≤ capacity)
    (maxRetries : Nat) (messages : List (Nat × Nat × Bytes × QoSLevel))
    (hn : messages.length < 2 ^ 64) :
    ((messages.flatMap fun m => unread maxRetries m.1 m.2.1 m.2.2.1 m.2.2.2).foldl act
      (new defaultQos capacity)).Leaked capacity messages.length := by
  have hnew : (new defaultQos capacity).Leaked capacity 0 :=
    ⟨.new defaultQos capacity, ⟨rfl, (Holds.new defaultQos capacity).listed, Nat.le_refl _⟩, rfl,
      rfl⟩
  induction messages using List.reverseRecOn with
  | nil => exact hnew
  | append_singleton messages m ih =>
    rw [List.length_append] at hn ⊢
    rw [List.flatMap_append, List.foldl_append, List.flatMap_singleton]
    exact (ih (by omega)).unread hpos hn maxRetries m.1 m.2.1 m.2.2.1 m.2.2.2

theorem pending_grows_past_one :
    ((List.replicate 40 (0, 5, [7], .atMostOnce)).flatMap fun m : Nat × Nat × Bytes × QoSLevel =>
      unread 3 m.1 m.2.1 m.2.2.1 m.2.2.2).foldl act (new .atMostOnce 1) |>.Leaked 1 40 :=
  pending_grows .atMostOnce (by decide) 3 (List.replicate 40 (0, 5, [7], .atMostOnce)) (by decide)

end SubscriberQueue

end BlipMQ.Core
