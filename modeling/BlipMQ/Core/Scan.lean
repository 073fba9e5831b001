import BlipMQ.Core.Contents

/-!
# Broker — the maintenance tick is a scan

The tick looks at the items of the heaps that are due; the scan looks at
every entry. In a queue with the invariant each live entry has its items,
so both come to the same.
-/

namespace BlipMQ.Core

namespace SubscriberQueue

section Tick

variable {q : SubscriberQueue} {n now : Nat}

/-! ## The entries of a queue -/

theorem nodup_tags {m : Entries} (htag : ∀ t e, m.lookup t = some e → e.tag = t) :
    ((m.entries.map Sigma.snd).map QueueEntry.tag).Nodup := by
  have hkeys : (m.entries.map Sigma.snd).map QueueEntry.tag = m.keys := by
    rw [List.map_map]
    exact List.map_congr_left fun p hp => htag p.1 p.2 (AList.mem_lookup_iff.mpr hp)
  rw [hkeys]
  exact m.keys_nodup

/-- No two entries of a queue have one tag. -/
theorem Inv.tags_nodup (h : q.Inv n) :
    ((q.contents.waiting ++ q.contents.inflight).map QueueEntry.tag).Nodup := by
  rw [List.map_append, List.nodup_append]
  refine ⟨?_, nodup_tags fun t e ht => (h.inflight t e ht).1, ?_⟩
  · exact (h.waiting_perm.map _).nodup_iff.mpr
      (nodup_tags fun t e ht => (h.pendingEntries t e ht).1)
  · intro s hs t ht
    obtain ⟨e, he, rfl⟩ := List.mem_map.mp hs
    obtain ⟨e', he', rfl⟩ := List.mem_map.mp ht
    intro heq
    have hp := h.mem_waiting.mp he
    have hi := h.mem_inflight.mp he'
    rw [← heq] at hi
    exact (h.inflight _ _ hi).2.2 (h.pendingEntries _ _ hp).2

variable {e : QueueEntry} {t : Nat}

theorem Inv.stored_iff (h : q.Inv n) :
    (q.pendingEntries.lookup t).or (q.inflight.lookup t) = some e ↔
      e ∈ q.contents.waiting ++ q.contents.inflight ∧ e.tag = t := by
  rw [List.mem_append, h.mem_waiting, h.mem_inflight]
  constructor
  · intro he
    cases hp : q.pendingEntries.lookup t with
    | some e' =>
      rw [hp] at he
      cases he
      obtain ⟨rfl, -⟩ := h.pendingEntries t e hp
      exact ⟨.inl hp, rfl⟩
    | none =>
      rw [hp] at he
      obtain ⟨rfl, -⟩ := h.inflight t e he
      exact ⟨.inr he, rfl⟩
  · rintro ⟨hp | hi, rfl⟩
    · rw [hp]
      rfl
    · rcases h.disjoint e.tag with hnone | hnone
      · rw [hnone]
        exact hi
      · rw [hi] at hnone
        cases hnone

/-! ## Expiry -/

/-- The queue without what has expired. -/
def unexpired (q : SubscriberQueue) (now : Nat) : SubscriberQueue :=
  { q with
    pendingEntries := keep q.pendingEntries fun _ e => !e.expired now
    inflight := keep q.inflight fun _ e => !e.expired now
    expirationHeap := q.expirationHeap.filter fun x => !decide (x.expiresAt ≤ now) }

/-- The items of the expiration heap that are due, in order. -/
def dueExpirations (q : SubscriberQueue) (now : Nat) : List ExpirationEntry :=
  Heap.dueItems (fun x => x.expiresAt ≤ now) q.expirationHeap

theorem mem_dueExpirations {x : ExpirationEntry} :
    x ∈ q.dueExpirations now ↔ x ∈ q.expirationHeap ∧ x.expiresAt ≤ now := by
  rw [dueExpirations, Heap.mem_dueItems, decide_eq_true_iff]

/-- The expiry loop is a fold over the due items. -/
theorem expireLoop_foldl (now : Nat) (q : SubscriberQueue) :
    expireLoop now q =
      let out := (q.dueExpirations now).foldl expireOne (q, [])
      ({ out.1 with
          expirationHeap := q.expirationHeap.filter fun x => !decide (x.expiresAt ≤ now) },
        out.2) := by
  have hdue : ∀ a b : ExpirationEntry, a ≤ b → decide (b.expiresAt ≤ now) = true →
      decide (a.expiresAt ≤ now) = true := by
    intro a b hab hb
    exact decide_eq_true ((ExpirationEntry.expiresAt_le hab).trans (of_decide_eq_true hb))
  unfold expireLoop
  rw [Heap.drain_eq hdue]
  rfl

theorem Inv.nodup_dueExpirations (h : q.Inv n) (now : Nat) :
    ((q.dueExpirations now).map ExpirationEntry.tag).Nodup :=
  Heap.nodup_map_dueItems h.expiration_nodup

theorem expired_iff : e.expired now = true ↔ ∃ x, e.expiresAt = some x ∧ x ≤ now := by
  unfold QueueEntry.expired
  cases e.expiresAt <;> simp

/-- The expiry loop takes from flight only what has expired. -/
structure Expires (now : Nat) (q q' : SubscriberQueue) : Prop where
  retryHeap : q'.retryHeap = q.retryHeap
  pending : q'.pending = q.pending
  inflight : ∀ t, q'.inflight.lookup t = q.inflight.lookup t ∨
    q'.inflight.lookup t = none ∧ ∃ e, q.inflight.lookup t = some e ∧ e.expired now = true

theorem Expires.trans {q' q'' : SubscriberQueue} (h : Expires now q q')
    (h' : Expires now q' q'') : Expires now q q'' := by
  refine ⟨h'.retryHeap.trans h.retryHeap, h'.pending.trans h.pending, fun t => ?_⟩
  rcases h'.inflight t with heq | ⟨hnone, e, he, hexp⟩
  · rw [heq]
    exact h.inflight t
  · rcases h.inflight t with heq | ⟨hnone', -⟩
    · exact .inr ⟨hnone, e, heq ▸ he, hexp⟩
    · rw [hnone'] at he
      cases he

theorem expireOne_expires (s : Sweep) {x : ExpirationEntry} (hx : x.expiresAt ≤ now) :
    Expires now s.1 (expireOne s x).1 := by
  have hrefl : Expires now s.1 s.1 := ⟨rfl, rfl, fun _ => .inl rfl⟩
  unfold expireOne
  split
  · split
    · exact ⟨rfl, rfl, fun _ => .inl rfl⟩
    · exact hrefl
  · split
    · rename_i entry hl
      split
      · rename_i htime
        refine ⟨rfl, rfl, fun t => ?_⟩
        show (s.1.inflight.erase x.tag).lookup t = _ ∨ (s.1.inflight.erase x.tag).lookup t = _ ∧ _
        rw [lookup_erase_eq]
        by_cases ht : t = x.tag
        · subst ht
          rw [if_pos rfl]
          exact .inr ⟨rfl, entry, hl, expired_iff.mpr ⟨_, htime, hx⟩⟩
        · rw [if_neg ht]
          exact .inl rfl
      · exact hrefl
    · exact hrefl

theorem expireLoop_expires (q : SubscriberQueue) (now : Nat) :
    Expires now q (expireLoop now q).1 := by
  have hfold : ∀ (items : List ExpirationEntry) (s : Sweep),
      (∀ x ∈ items, x.expiresAt ≤ now) → Expires now s.1 (items.foldl expireOne s).1 := by
    intro items
    induction items with
    | nil => exact fun s _ => ⟨rfl, rfl, fun _ => .inl rfl⟩
    | cons x items ih =>
      intro s hdue
      exact (expireOne_expires s (hdue x List.mem_cons_self)).trans
        (ih _ fun y hy => hdue y (List.mem_cons_of_mem _ hy))
  rw [expireLoop_foldl]
  have h := hfold (q.dueExpirations now) (q, []) fun x hx => (mem_dueExpirations.mp hx).2
  exact ⟨h.retryHeap, h.pending, h.inflight⟩

theorem Expires.length_inflight_le {q' : SubscriberQueue} (h : Expires now q q') :
    q'.inflight.entries.length ≤ q.inflight.entries.length := by
  have hle : q'.inflight.entries.length ≤ q.inflight.keys.length := by
    refine length_le_of_keys_subset fun t ht => ?_
    rw [← AList.mem_keys, ← AList.lookup_isSome]
    rw [← AList.lookup_isSome] at ht
    rcases h.inflight t with heq | ⟨-, e, he, -⟩
    · rwa [← heq]
    · rw [he]
      rfl
  rwa [AList.keys, List.keys, List.length_map] at hle

/-- A stored entry is spared by the due items just if it has not expired. -/
theorem Inv.spares_expiring (h : q.Inv n)
    (hl : q.pendingEntries.lookup t = some e ∨ q.inflight.lookup t = some e) :
    spares ExpirationEntry.tag expiresBy (q.dueExpirations now) t e = !e.expired now := by
  unfold spares
  congr 1
  rw [Bool.eq_iff_iff, List.any_eq_true, expired_iff]
  simp only [Bool.and_eq_true, decide_eq_true_eq, expiresBy]
  constructor
  · rintro ⟨x, hx, -, he⟩
    exact ⟨x.expiresAt, he, (mem_dueExpirations.mp hx).2⟩
  · rintro ⟨x, he, hle⟩
    exact ⟨⟨x, t⟩, mem_dueExpirations.mpr ⟨h.expiration t e x hl he, hle⟩, rfl, he⟩

theorem expireLoop_eq (h : q.Inv n) (now : Nat) :
    expireLoop now q = (q.unexpired now,
      ((q.dueExpirations now).filterMap q.expiring).map (·, .ttlExpired)) := by
  have hpending : keep q.pendingEntries (spares ExpirationEntry.tag expiresBy
      (q.dueExpirations now)) = keep q.pendingEntries fun _ e => !e.expired now :=
    keep_congr fun t e ht => h.spares_expiring (.inl ht)
  have hinflight : keep q.inflight (spares ExpirationEntry.tag expiresBy
      (q.dueExpirations now)) = keep q.inflight fun _ e => !e.expired now :=
    keep_congr fun t e ht => h.spares_expiring (.inr ht)
  rw [expireLoop_foldl, foldl_expireOne h.disjoint (h.nodup_dueExpirations now), withoutExpiring,
    hpending, hinflight]
  rfl

/-- What expires is what the scan finds. -/
theorem Inv.expiring_perm (h : q.Inv n) (now : Nat) :
    ((q.dueExpirations now).filterMap q.expiring).Perm
      ((q.contents.waiting ++ q.contents.inflight).filter (·.expired now)) := by
  have htag : ∀ x e, q.expiring x = some e →
      (e ∈ q.contents.waiting ++ q.contents.inflight ∧ e.tag = x.tag) ∧
        e.expiresAt = some x.expiresAt := by
    intro x e hx
    obtain ⟨hl, he⟩ := Option.filter_eq_some_iff.mp hx
    exact ⟨h.stored_iff.mp hl, of_decide_eq_true he⟩
  refine (List.perm_ext_iff_of_nodup ?_ (.filter _ (.of_map _ h.tags_nodup))).mpr fun e => ?_
  · refine List.Pairwise.filterMap _ ?_ (List.pairwise_map.mp (h.nodup_dueExpirations now))
    rintro x y hxy e hx e' hy rfl
    exact hxy ((htag x e hx).1.2.symm.trans (htag y e hy).1.2)
  · rw [List.mem_filterMap, List.mem_filter, expired_iff]
    constructor
    · rintro ⟨x, hx, he⟩
      exact ⟨(htag x e he).1.1, x.expiresAt, (htag x e he).2, (mem_dueExpirations.mp hx).2⟩
    · rintro ⟨hmem, x, he, hle⟩
      have hl := h.stored_iff.mpr ⟨hmem, rfl⟩
      refine ⟨⟨x, e.tag⟩, mem_dueExpirations.mpr ⟨?_, hle⟩, ?_⟩
      · rw [List.mem_append, h.mem_waiting, h.mem_inflight] at hmem
        exact h.expiration e.tag e x hmem he
      · exact Option.filter_eq_some_iff.mpr ⟨hl, decide_eq_true he⟩

theorem live_keep (m : Entries) (p : QueueEntry → Bool) (tags : List Nat) :
    live (keep m fun _ e => p e) tags = (live m tags).filter p := by
  unfold live
  rw [List.filter_filterMap]
  refine List.filterMap_congr fun t _ => ?_
  rw [lookup_keep]

theorem contents_unexpired (q : SubscriberQueue) (now : Nat) :
    (q.unexpired now).contents = ⟨q.contents.waiting.filter (!·.expired now),
      q.contents.inflight.filter (!·.expired now)⟩ := by
  show Contents.mk (live (keep q.pendingEntries fun _ e => !e.expired now) q.pending)
    ((keep q.inflight fun _ e => !e.expired now).entries.map Sigma.snd) = _
  rw [live_keep, values_keep]
  rfl

theorem lookup_of_keep {m : Entries} {p : Nat → QueueEntry → Bool}
    (h : (keep m p).lookup t = some e) : m.lookup t = some e ∧ p t e = true := by
  rw [lookup_keep] at h
  exact Option.filter_eq_some_iff.mp h

theorem Inv.unexpired (h : q.Inv n) (now : Nat) : (q.unexpired now).Inv n := by
  refine
    { nextTag := h.nextTag, pending_nodup := h.pending_nodup, pending_le := h.pending_le,
      pendingEntries := fun t e ht => h.pendingEntries t e (lookup_of_keep ht).1
      inflight := fun t e ht => h.inflight t e (lookup_of_keep ht).1
      expiration_nodup := h.expiration_nodup.sublist (List.filter_sublist.map _)
      expiration_le := fun x hx => h.expiration_le x (List.mem_of_mem_filter hx)
      expiration := ?_, retry_nodup := h.retry_nodup, retry_le := ?_
      retry := fun t e ht => h.retry t e (lookup_of_keep ht).1 }
  · intro t e x ht hx
    have hspared : (!e.expired now) = true :=
      ht.elim (fun ht => (lookup_of_keep ht).2) fun ht => (lookup_of_keep ht).2
    have hitem := h.expiration t e x
      (ht.imp (fun ht => (lookup_of_keep ht).1) fun ht => (lookup_of_keep ht).1) hx
    refine List.mem_filter.mpr ⟨hitem, ?_⟩
    by_contra hdue
    have hexp : e.expired now = true := expired_iff.mpr ⟨x, hx, by simpa using hdue⟩
    rw [hexp] at hspared
    cases hspared
  · intro x hx
    refine ⟨(h.retry_le x hx).1, ?_⟩
    show (keep _ _).lookup x.tag = none
    rw [lookup_keep, (h.retry_le x hx).2]
    rfl

/-! ## Retry -/

/-- The queue without the inflight entries that are due. -/
def notDue (q : SubscriberQueue) (now : Nat) : SubscriberQueue :=
  { q with
    inflight := keep q.inflight fun _ e => !e.due now
    retryHeap := q.retryHeap.filter fun x => !decide (x.nextDeliveryAt ≤ now) }

/-- The items of the retry heap that are due, in order. -/
def dueRetries (q : SubscriberQueue) (now : Nat) : List RetryEntry :=
  Heap.dueItems (fun x => x.nextDeliveryAt ≤ now) q.retryHeap

/-- The inflight entries that are due, in order. -/
def dueInflight (q : SubscriberQueue) (now : Nat) : List QueueEntry :=
  (q.dueRetries now).filterMap q.retrying

theorem mem_dueRetries {x : RetryEntry} :
    x ∈ q.dueRetries now ↔ x ∈ q.retryHeap ∧ x.nextDeliveryAt ≤ now := by
  rw [dueRetries, Heap.mem_dueItems, decide_eq_true_iff]

/-- The retry loop is a fold over the due items. -/
theorem retryLoop_foldl (now maxRetries : Nat) (s : Sweep) :
    retryLoop now maxRetries s =
      let out := (s.1.dueRetries now).foldl (retryOne now maxRetries) s
      ({ out.1 with retryHeap := s.1.retryHeap.filter fun x => !decide (x.nextDeliveryAt ≤ now) },
        out.2) := by
  have hdue : ∀ a b : RetryEntry, a ≤ b → decide (b.nextDeliveryAt ≤ now) = true →
      decide (a.nextDeliveryAt ≤ now) = true := by
    intro a b hab hb
    exact decide_eq_true ((RetryEntry.nextDeliveryAt_le hab).trans (of_decide_eq_true hb))
  unfold retryLoop
  rw [Heap.drain_eq hdue]
  rfl

theorem Inv.nodup_dueRetries (h : q.Inv n) (now : Nat) :
    ((q.dueRetries now).map RetryEntry.tag).Nodup :=
  Heap.nodup_map_dueItems h.retry_nodup

/-- An entry is spared by the due items unless its own item is among them. -/
theorem spares_retrying (q : SubscriberQueue) (now t : Nat) (e : QueueEntry) :
    spares RetryEntry.tag retriesBy (q.dueRetries now) t e =
      !decide (⟨e.nextDeliveryAt, t⟩ ∈ q.retryHeap ∧ e.nextDeliveryAt ≤ now) := by
  unfold spares
  congr 1
  rw [Bool.eq_iff_iff, List.any_eq_true]
  simp only [Bool.and_eq_true, decide_eq_true_eq, retriesBy]
  constructor
  · rintro ⟨⟨time, tag⟩, hx, rfl, rfl⟩
    exact mem_dueRetries.mp hx
  · intro hx
    exact ⟨⟨e.nextDeliveryAt, t⟩, mem_dueRetries.mpr hx, rfl, rfl⟩

theorem Inv.spares_retrying (h : q.Inv n) (hl : q.inflight.lookup t = some e) :
    spares RetryEntry.tag retriesBy (q.dueRetries now) t e = !e.due now := by
  rw [SubscriberQueue.spares_retrying, QueueEntry.due, decide_eq_decide.mpr]
  exact and_iff_right (h.retry t e hl)

theorem retryLoop_eq (h : q.Inv n) (now maxRetries : Nat) (ds : List (QueueEntry × DropReason)) :
    retryLoop now maxRetries (q, ds) =
      ((q.notDue now).putBack now ((q.dueInflight now).filter (·.deliveryAttempts < maxRetries)),
        ds ++ ((q.dueInflight now).filter (maxRetries ≤ ·.deliveryAttempts)).map
          (·, .maxRetriesExceeded)) := by
  have hinflight : keep q.inflight (spares RetryEntry.tag retriesBy (q.dueRetries now)) =
      keep q.inflight fun _ e => !e.due now :=
    keep_congr fun t e ht => h.spares_retrying ht
  rw [retryLoop_foldl, foldl_retryOne (h.nodup_dueRetries now), withoutRetrying, hinflight]
  rfl

theorem retrying_eq_some (h : q.Inv n) {x : RetryEntry} :
    q.retrying x = some e ↔ e ∈ q.contents.inflight ∧ e.retryKey = x := by
  obtain ⟨time, tag⟩ := x
  unfold retrying retriesBy QueueEntry.retryKey
  rw [Option.filter_eq_some_iff, decide_eq_true_iff, RetryEntry.mk.injEq, h.mem_inflight]
  constructor
  · rintro ⟨hl, he⟩
    obtain ⟨rfl, -⟩ := h.inflight tag e hl
    exact ⟨hl, he, rfl⟩
  · rintro ⟨hl, he, rfl⟩
    exact ⟨hl, he⟩

theorem Inv.dueInflight_perm (h : q.Inv n) (now : Nat) :
    (q.dueInflight now).Perm (q.contents.inflight.filter (·.due now)) := by
  have hnd : q.contents.inflight.Nodup :=
    .of_map QueueEntry.tag (nodup_tags fun t e ht => (h.inflight t e ht).1)
  refine (List.perm_ext_iff_of_nodup ?_ (hnd.filter _)).mpr fun e => ?_
  · refine List.Pairwise.filterMap _ ?_ (List.pairwise_map.mp (h.nodup_dueRetries now))
    rintro x y hxy e hx e' hy rfl
    rw [← ((retrying_eq_some h).mp hx).2, ← ((retrying_eq_some h).mp hy).2] at hxy
    exact hxy rfl
  · rw [dueInflight, List.mem_filterMap, List.mem_filter]
    simp only [retrying_eq_some h, mem_dueRetries, QueueEntry.due, decide_eq_true_iff]
    constructor
    · rintro ⟨x, ⟨-, hle⟩, hmem, rfl⟩
      exact ⟨hmem, hle⟩
    · rintro ⟨hmem, hle⟩
      exact ⟨e.retryKey, ⟨h.retry _ _ (h.mem_inflight.mp hmem), hle⟩, hmem, rfl⟩

/-- What is put back is in the order of the scan. -/
theorem Inv.filter_dueInflight (h : q.Inv n) (now : Nat) (p : QueueEntry → Bool) :
    (q.dueInflight now).filter p =
      ((q.contents.inflight.filter (·.due now)).filter p).insertionSort
        fun a b => a.retryKey ≤ b.retryKey := by
  refine Heap.eq_insertionSort_key ((h.dueInflight_perm now).filter p) ?_ ?_
  · refine List.Pairwise.filter p (Heap.pairwise_filterMap_key (Heap.dueItems_sorted ..) ?_)
    exact fun x e he => ((retrying_eq_some h).mp he).2
  · have hmem : ∀ e ∈ (q.dueInflight now).filter p, q.inflight.lookup e.tag = some e := by
      intro e he
      have hdue := (h.dueInflight_perm now).mem_iff.mp (List.mem_of_mem_filter he)
      exact h.mem_inflight.mp (List.mem_of_mem_filter hdue)
    intro a ha b hb hab
    have hl := hmem a ha
    rw [show a.tag = b.tag from congrArg RetryEntry.tag hab, hmem b hb] at hl
    exact (Option.some.inj hl).symm

theorem contents_notDue (q : SubscriberQueue) (now : Nat) :
    (q.notDue now).contents =
      ⟨q.contents.waiting, q.contents.inflight.filter (!·.due now)⟩ := by
  show Contents.mk q.waiting ((keep q.inflight fun _ e => !e.due now).entries.map Sigma.snd) = _
  rw [values_keep]
  rfl

theorem Inv.notDue (h : q.Inv n) (now : Nat) : (q.notDue now).Inv n :=
  { h with
    inflight := fun t e ht => h.inflight t e (lookup_of_keep ht).1
    expiration := fun t e x ht =>
      h.expiration t e x (ht.imp_right fun ht => (lookup_of_keep ht).1)
    retry_nodup := h.retry_nodup.sublist (List.filter_sublist.map _)
    retry_le := fun x hx => h.retry_le x (List.mem_of_mem_filter hx)
    retry := fun t e ht =>
      List.mem_filter.mpr ⟨h.retry t e (lookup_of_keep ht).1, (lookup_of_keep ht).2⟩ }

/-- The entry has left the queue, but for its item in the expiration heap. -/
structure Lifted (q : SubscriberQueue) (n : Nat) (e : QueueEntry) : Prop where
  tag_le : e.tag ≤ n
  pending : e.tag ∉ q.pending
  inflight : q.inflight.lookup e.tag = none
  retry : ∀ x ∈ q.retryHeap, x.tag ≠ e.tag
  expiration : ∀ x, e.expiresAt = some x → ⟨x, e.tag⟩ ∈ q.expirationHeap

theorem Inv.lifted (h : q.Inv n) (he : e ∈ q.dueInflight now) : (q.notDue now).Lifted n e := by
  have hmem := (h.dueInflight_perm now).mem_iff.mp he
  obtain ⟨hmem, hdue⟩ := List.mem_filter.mp hmem
  have hl := h.mem_inflight.mp hmem
  refine
    { tag_le := (h.inflight _ _ hl).2.1, pending := (h.inflight _ _ hl).2.2, inflight := ?_
      retry := ?_, expiration := fun x hx => h.expiration _ _ x (.inr hl) hx }
  · show (keep _ _).lookup e.tag = none
    rw [lookup_keep, hl, Option.filter_some, hdue]
    rfl
  · -- the entry's own item is due, and no tag has two items
    intro x hx heq
    obtain ⟨hx, hlater⟩ := List.mem_filter.mp hx
    have hown : x = e.retryKey :=
      List.inj_on_of_nodup_map h.retry_nodup hx (h.retry _ _ hl) heq
    have hle : x.nextDeliveryAt ≤ now := by
      rw [hown]
      exact of_decide_eq_true hdue
    simp [hle] at hlater

theorem putBack_cons (q : SubscriberQueue) (now : Nat) (e : QueueEntry) (back : List QueueEntry) :
    q.putBack now (e :: back) = (q.putBack now [e]).putBack now back := by
  unfold putBack
  simp

theorem Inv.putBack_one (h : q.Inv n) (he : q.Lifted n e) (now : Nat) :
    (q.putBack now [e]).Inv n := by
  have hcases : ∀ t e', (q.putBack now [e]).pendingEntries.lookup t = some e' →
      (t = e.tag ∧ e' = e.retryAt now) ∨ q.pendingEntries.lookup t = some e' :=
    fun t e' => lookup_insert_cases
  refine
    { nextTag := h.nextTag, pending_nodup := ?_, pending_le := ?_, pendingEntries := ?_,
      inflight := ?_, expiration_nodup := h.expiration_nodup, expiration_le := h.expiration_le
      expiration := ?_, retry_nodup := h.retry_nodup, retry_le := ?_, retry := h.retry }
  · show (q.pending ++ [e.tag]).Nodup
    rw [← List.concat_eq_append]
    exact h.pending_nodup.concat he.pending
  · exact forall_mem_concat h.pending_le he.tag_le
  · intro t e' ht
    rcases hcases t e' ht with ⟨rfl, rfl⟩ | hold
    · exact ⟨rfl, List.mem_append_right _ (List.mem_singleton_self _)⟩
    · exact ⟨(h.pendingEntries t e' hold).1,
        List.mem_append_left _ (h.pendingEntries t e' hold).2⟩
  · intro t e' ht
    obtain ⟨htag, hle, hnot⟩ := h.inflight t e' ht
    refine ⟨htag, hle, fun hmem => ?_⟩
    rcases List.mem_append.mp hmem with hold | hnew
    · exact hnot hold
    · change q.inflight.lookup t = some e' at ht
      rw [List.mem_singleton.mp hnew, he.inflight] at ht
      cases ht
  · intro t e' x ht hx
    rcases ht with ht | ht
    · rcases hcases t e' ht with ⟨rfl, rfl⟩ | hold
      · exact he.expiration x hx
      · exact h.expiration t e' x (.inl hold) hx
    · exact h.expiration t e' x (.inr ht) hx
  · intro x hx
    refine ⟨(h.retry_le x hx).1, ?_⟩
    show (q.pendingEntries.insert e.tag _).lookup x.tag = none
    rw [AList.lookup_insert_ne (he.retry x hx), (h.retry_le x hx).2]

/-- Entries with different tags are put back one after the other. -/
theorem Inv.putBack (h : q.Inv n) {back : List QueueEntry} (hback : ∀ e ∈ back, q.Lifted n e)
    (hnd : (back.map QueueEntry.tag).Nodup) (now : Nat) :
    (q.putBack now back).Inv n ∧
      (q.putBack now back).waiting = q.waiting ++ back.map (·.retryAt now) := by
  induction back generalizing q with
  | nil =>
    have hnil : q.putBack now [] = q := by
      unfold SubscriberQueue.putBack
      simp
    rw [hnil, List.map_nil, List.append_nil]
    exact ⟨h, rfl⟩
  | cons e back ih =>
    obtain ⟨hnew, hnd⟩ := List.nodup_cons.mp hnd
    have he := hback e List.mem_cons_self
    have hrest : ∀ e' ∈ back, (q.putBack now [e]).Lifted n e' := by
      intro e' he'
      have h' := hback e' (List.mem_cons_of_mem _ he')
      refine { h' with pending := fun hmem => ?_ }
      rcases List.mem_append.mp hmem with hold | heq
      · exact h'.pending hold
      · exact hnew (List.mem_singleton.mp heq ▸ List.mem_map_of_mem he')
    have hone : (q.putBack now [e]).waiting = q.waiting ++ [e.retryAt now] := by
      show live (q.pendingEntries.insert e.tag (e.retryAt now)) (q.pending ++ [e.tag]) = _
      rw [live_append, live_insert he.pending, live_cons_some (AList.lookup_insert _)]
      rfl
    obtain ⟨hinv, hwaiting⟩ := ih (h.putBack_one he now) hrest hnd
    rw [putBack_cons]
    refine ⟨hinv, ?_⟩
    rw [hwaiting, hone, List.append_assoc]
    rfl

/-! ## The whole tick -/

theorem Inv.retryLoop (h : q.Inv n) (now maxRetries : Nat) (ds : List (QueueEntry × DropReason)) :
    (retryLoop now maxRetries (q, ds)).1.Inv n ∧
      (retryLoop now maxRetries (q, ds)).1.contents =
        ⟨q.contents.waiting ++ (((q.contents.inflight.filter (·.due now)).filter
            (·.deliveryAttempts < maxRetries)).insertionSort
              fun a b => a.retryKey ≤ b.retryKey).map (·.retryAt now),
          q.contents.inflight.filter (!·.due now)⟩ := by
  rw [retryLoop_eq h]
  have htags : (((q.dueInflight now).filter (·.deliveryAttempts < maxRetries)).map
      QueueEntry.tag).Nodup := by
    have hall := nodup_tags fun t e ht => (h.inflight t e ht).1
    have hdue : ((q.contents.inflight.filter (·.due now)).map QueueEntry.tag).Nodup :=
      hall.sublist (List.Sublist.map _ List.filter_sublist)
    exact (((h.dueInflight_perm now).map _).nodup_iff.mpr hdue).sublist
      (List.Sublist.map _ List.filter_sublist)
  obtain ⟨hinv, hwaiting⟩ := (h.notDue now).putBack
    (fun e he => h.lifted (List.mem_of_mem_filter he)) htags now
  refine ⟨hinv, ?_⟩
  have hinflight := congrArg Contents.inflight (q.contents_notDue now)
  unfold contents
  rw [hwaiting, h.filter_dueInflight]
  exact congrArg (Contents.mk _) hinflight

/-- **The tick of a queue with the invariant is the scan of its contents**; what
is dropped comes in another order. -/
theorem Inv.sweep (h : q.Inv n) (now maxRetries : Nat) :
    (q.sweep now maxRetries).1.Inv n ∧
      (q.sweep now maxRetries).1.contents = (q.contents.scan now maxRetries).1 ∧
      (q.sweep now maxRetries).2.Perm (q.contents.scan now maxRetries).2 := by
  have halive := h.unexpired now
  unfold SubscriberQueue.sweep
  rw [expireLoop_eq h]
  obtain ⟨hinv, hcontents⟩ := halive.retryLoop now maxRetries
    (((q.dueExpirations now).filterMap q.expiring).map (·, .ttlExpired))
  refine ⟨hinv, ?_, ?_⟩
  · rw [hcontents, contents_unexpired]
    rfl
  · rw [retryLoop_eq halive]
    refine ((h.expiring_perm now).map _).append (List.Perm.map _ ?_)
    have hdue := (halive.dueInflight_perm now).filter fun e => maxRetries ≤ e.deliveryAttempts
    rwa [contents_unexpired] at hdue

end Tick

end SubscriberQueue

/-! ## Runs of a queue -/

/-- The operations on a polled queue, each with the time it reads. -/
inductive QueueAction where
  | enqueue (now : Nat) (payload : Bytes) (messageQos : QoSLevel) (walId ttl : Option Nat)
  | dequeue (now baseDelay : Nat)
  | ack (tag : Nat)
  | maintenanceTick (now maxRetries : Nat)

def QueueAction.isEnqueue : QueueAction → Bool
  | .enqueue .. => true
  | _ => false

namespace SubscriberQueue

def act (q : SubscriberQueue) : QueueAction → SubscriberQueue
  | .enqueue now payload messageQos walId ttl => q.enqueue now payload messageQos walId ttl
  | .dequeue now baseDelay => (q.dequeue now baseDelay).1
  | .ack tag => (q.ack tag).1
  | .maintenanceTick now maxRetries => (q.maintenanceTick now maxRetries).1

def enqueues (acts : List QueueAction) : Nat := acts.countP QueueAction.isEnqueue

theorem enqueues_cons (a : QueueAction) (acts : List QueueAction) :
    enqueues (a :: acts) = enqueues acts + if a.isEnqueue then 1 else 0 :=
  List.countP_cons ..

theorem enqueues_append (acts acts' : List QueueAction) :
    enqueues (acts ++ acts') = enqueues acts + enqueues acts' :=
  List.countP_append

/-- The count as the runs take it apart. -/
theorem add_enqueues_cons (n : Nat) (a : QueueAction) (acts : List QueueAction) :
    n + enqueues (a :: acts) = n + enqueues [a] + enqueues acts := by
  rw [Nat.add_assoc, ← enqueues_append]
  rfl

variable {q : SubscriberQueue}

theorem Inv.act {n : Nat} (h : q.Inv n) (a : QueueAction) (hn : n + enqueues [a] < 2 ^ 64) :
    (q.act a).Inv (n + enqueues [a]) := by
  cases a with
  | enqueue now payload qos walId ttl => exact h.enqueue hn now payload qos walId ttl
  | dequeue now baseDelay => exact h.dequeue now baseDelay
  | ack tag => exact h.ack tag
  | maintenanceTick now maxRetries => exact (h.sweep now maxRetries).1

theorem Inv.run {n : Nat} (h : q.Inv n) (acts : List QueueAction)
    (hn : n + enqueues acts < 2 ^ 64) :
    (acts.foldl SubscriberQueue.act q).Inv (n + enqueues acts) := by
  induction acts generalizing q n with
  | nil => exact h
  | cons a acts ih =>
    rw [add_enqueues_cons] at hn ⊢
    exact ih (h.act a (by omega)) hn

/-- The contents say all there is to know of the two maps and of the order in
which live tags stand in `pending`. -/
structure Shows (q : SubscriberQueue) (c : Contents) : Prop where
  pending : ∀ t e, q.pendingEntries.lookup t = some e ↔ e ∈ c.waiting ∧ e.tag = t
  order : q.pending.filter (q.pendingEntries.lookup · |>.isSome) = c.waiting.map QueueEntry.tag
  inflight : ∀ t e, q.inflight.lookup t = some e ↔ e ∈ c.inflight ∧ e.tag = t

theorem live_tags {m : Entries} (htag : ∀ t e, m.lookup t = some e → e.tag = t)
    (tags : List Nat) : tags.filter (m.lookup · |>.isSome) = (live m tags).map QueueEntry.tag := by
  induction tags with
  | nil => rfl
  | cons t tags ih =>
    cases hl : m.lookup t with
    | none => rw [live_cons_none hl, ← ih, List.filter_cons_of_neg (by simp [hl])]
    | some e =>
      rw [live_cons_some hl, List.map_cons, ← ih, htag t e hl,
        List.filter_cons_of_pos (by simp [hl])]

theorem Inv.shows {n : Nat} (h : q.Inv n) : q.Shows q.contents where
  pending t e := by
    rw [h.mem_waiting]
    constructor
    · intro ht
      obtain ⟨rfl, -⟩ := h.pendingEntries t e ht
      exact ⟨ht, rfl⟩
    · rintro ⟨ht, rfl⟩
      exact ht
  order := live_tags (fun t e ht => (h.pendingEntries t e ht).1) q.pending
  inflight t e := by
    rw [h.mem_inflight]
    constructor
    · intro ht
      obtain ⟨rfl, -⟩ := h.inflight t e ht
      exact ⟨ht, rfl⟩
    · rintro ⟨ht, rfl⟩
      exact ht

/-- **The heap-driven tick is a plain scan** of every queue that `new` and its
operations lead to: the contents before the tick show what is stored then, and
the tick leaves a queue that shows the contents after the scan. -/
theorem maintenanceTick_eq_scan (defaultQos : QoSLevel) (capacity : Nat)
    (acts : List QueueAction) (hlt : enqueues acts < 2 ^ 64) (now maxRetries : Nat) :
    let q := acts.foldl act (new defaultQos capacity)
    let tick := q.maintenanceTick now maxRetries
    let scan := q.contents.scan now maxRetries
    q.Shows q.contents ∧ tick.1.Shows scan.1 ∧
      tick.2.Perm (scan.2.map fun d => (d.1.payload, d.2)) := by
  intro q tick scan
  have hinv : q.Inv (0 + enqueues acts) := (Inv.new defaultQos capacity).run acts (by omega)
  obtain ⟨hinv', hcontents, hdropped⟩ := hinv.sweep now maxRetries
  refine ⟨hinv.shows, ?_, hdropped.map _⟩
  have hshows := hinv'.shows
  rw [hcontents] at hshows
  exact hshows

/-- Of two messages one is in flight and due, the other has expired. -/
theorem maintenanceTick_eq_scan_retry_and_expire :
    let acts : List QueueAction := [.enqueue 0 [1] .atLeastOnce none none,
      .enqueue 0 [2] .atMostOnce none (some 5), .dequeue 0 10]
    let q := acts.foldl act (new .atLeastOnce 4)
    (q.maintenanceTick 10 3).1.Shows (q.contents.scan 10 3).1 ∧
      (q.contents.scan 10 3).1.waiting = [⟨1, [1], .atLeastOnce, none, 0, none, 1, 10⟩] ∧
      (q.maintenanceTick 10 3).2 = [([2], .ttlExpired)] := by
  intro acts q
  have h := maintenanceTick_eq_scan .atLeastOnce 4 acts (by decide) 10 3
  exact ⟨h.2.1, by decide, by decide⟩

end SubscriberQueue

end BlipMQ.Core
