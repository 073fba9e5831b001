import BlipMQ.Core.Queue
import BlipMQ.Lib.Heap
import Mathlib.Data.Prod.Lex

/-!
# Broker — the maintenance tick of a queue

The tick pops the expiration heap and then the retry heap as far as they
are due. An item of a heap may be stale: its message may be gone, or wait
for another time than the item says, and then nothing happens.
-/

namespace BlipMQ.Core

/-! ## The order of the heaps -/

namespace ExpirationEntry

def key (x : ExpirationEntry) : Nat ×ₗ Nat := toLex (x.expiresAt, x.tag)

theorem key_injective : Function.Injective key := by
  rintro ⟨a, s⟩ ⟨b, t⟩ h
  cases toLex.injective h
  rfl

instance : LinearOrder ExpirationEntry := LinearOrder.lift' key key_injective

theorem expiresAt_le {x y : ExpirationEntry} (h : x ≤ y) : x.expiresAt ≤ y.expiresAt := by
  rcases Prod.Lex.toLex_le_toLex.mp h with hlt | ⟨heq, -⟩
  · exact Nat.le_of_lt hlt
  · exact Nat.le_of_eq heq

end ExpirationEntry

namespace RetryEntry

def key (x : RetryEntry) : Nat ×ₗ Nat := toLex (x.nextDeliveryAt, x.tag)

theorem key_injective : Function.Injective key := by
  rintro ⟨a, s⟩ ⟨b, t⟩ h
  cases toLex.injective h
  rfl

instance : LinearOrder RetryEntry := LinearOrder.lift' key key_injective

theorem nextDeliveryAt_le {x y : RetryEntry} (h : x ≤ y) :
    x.nextDeliveryAt ≤ y.nextDeliveryAt := by
  rcases Prod.Lex.toLex_le_toLex.mp h with hlt | ⟨heq, -⟩
  · exact Nat.le_of_lt hlt
  · exact Nat.le_of_eq heq

end RetryEntry

/-! ## The tick -/

inductive DropReason where
  | ttlExpired
  | maxRetriesExceeded
  deriving DecidableEq, Repr

namespace QueueEntry

/-- When the entry expires, if it has a TTL. -/
def expiresAt (e : QueueEntry) : Option Nat := e.ttl.map (e.createdAt + ·)

/-- The entry put back for another delivery. -/
def retryAt (e : QueueEntry) (now : Nat) : QueueEntry := { e with nextDeliveryAt := now }

end QueueEntry

namespace SubscriberQueue

/-- A queue during the tick, with the entries dropped so far. -/
abbrev Sweep := SubscriberQueue × List (QueueEntry × DropReason)

/-- One item of the expiration heap: a pending or inflight entry of this tag goes
if this is its time. -/
def expireOne (s : Sweep) (x : ExpirationEntry) : Sweep :=
  match s.1.pendingEntries.lookup x.tag with
  | some entry =>
    if entry.expiresAt = some x.expiresAt then
      ({ s.1 with pendingEntries := s.1.pendingEntries.erase x.tag },
        s.2 ++ [(entry, .ttlExpired)])
    else s
  | none =>
    match s.1.inflight.lookup x.tag with
    | some entry =>
      if entry.expiresAt = some x.expiresAt then
        ({ s.1 with inflight := s.1.inflight.erase x.tag }, s.2 ++ [(entry, .ttlExpired)])
      else s
    | none => s

/-- One item of the retry heap: the inflight entry of this tag, if this is its
time, goes or is put back. -/
def retryOne (now maxRetries : Nat) (s : Sweep) (x : RetryEntry) : Sweep :=
  match s.1.inflight.lookup x.tag with
  | none => s
  | some entry =>
    -- a stale item: the delivery was rescheduled since
    if entry.nextDeliveryAt ≠ x.nextDeliveryAt then s
    else if maxRetries ≤ entry.deliveryAttempts then
      ({ s.1 with inflight := s.1.inflight.erase x.tag },
        s.2 ++ [(entry, .maxRetriesExceeded)])
    else
      ({ s.1 with
          inflight := s.1.inflight.erase x.tag
          pending := s.1.pending ++ [entry.tag]
          pendingEntries := s.1.pendingEntries.insert entry.tag (entry.retryAt now) }, s.2)

def expireLoop (now : Nat) (q : SubscriberQueue) : Sweep :=
  let out := Heap.drain (fun x => x.expiresAt ≤ now) expireOne (q, []) q.expirationHeap
  ({ out.1.1 with expirationHeap := out.2 }, out.1.2)

def retryLoop (now maxRetries : Nat) (s : Sweep) : Sweep :=
  let out := Heap.drain (fun x => x.nextDeliveryAt ≤ now) (retryOne now maxRetries) s s.1.retryHeap
  ({ out.1.1 with retryHeap := out.2 }, out.1.2)

/-- The tick, with the entries it drops. -/
def sweep (q : SubscriberQueue) (now maxRetries : Nat) : Sweep :=
  retryLoop now maxRetries (expireLoop now q)

def maintenanceTick (q : SubscriberQueue) (now maxRetries : Nat) :
    SubscriberQueue × List (Bytes × DropReason) :=
  let out := q.sweep now maxRetries
  (out.1, out.2.map fun d => (d.1.payload, d.2))

/-! ## What the loops do

The tags of a heap's items are distinct in every queue that is filled by
`enqueue` alone, so each item finds the queue as it was before the loop. -/

section Spares

variable {ι : Type} {tag : ι → Nat} {hits : ι → QueueEntry → Bool} {x : ι} {m : Entries}
  {e : QueueEntry}

/-- No item is about the entry `e` under `t`. -/
def spares (tag : ι → Nat) (hits : ι → QueueEntry → Bool) (items : List ι) (t : Nat)
    (e : QueueEntry) : Bool :=
  !items.any fun x => tag x = t && hits x e

theorem spares_of_ne {t : Nat} (h : t ≠ tag x) (e : QueueEntry) :
    spares tag hits [x] t e = true := by
  have hne : ¬ tag x = t := fun he => h he.symm
  simp [spares, hne]

theorem spares_self (x : ι) (e : QueueEntry) : spares tag hits [x] (tag x) e = !hits x e := by
  simp [spares]

theorem spares_cons (x : ι) (items : List ι) (t : Nat) (e : QueueEntry) :
    spares tag hits (x :: items) t e = (spares tag hits [x] t e && spares tag hits items t e) := by
  simp [spares, Bool.not_or]

theorem keep_spares_cons (m : Entries) (x : ι) (items : List ι) :
    keep (keep m (spares tag hits [x])) (spares tag hits items) =
      keep m (spares tag hits (x :: items)) := by
  rw [keep_keep]
  congr 1
  funext t e
  exact (spares_cons x items t e).symm

/-- An item of another tag leaves a lookup as it is. -/
theorem lookup_keep_spares {t : Nat} (h : t ≠ tag x) (m : Entries) :
    (keep m (spares tag hits [x])).lookup t = m.lookup t := by
  rw [lookup_keep]
  cases m.lookup t <;> simp [spares_of_ne h]

theorem keep_spares_nil (m : Entries) : keep m (spares tag hits []) = m :=
  keep_eq_self fun _ _ _ => rfl

/-- An item that finds nothing leaves the map as it is. -/
theorem keep_spares_of_none (h : m.lookup (tag x) = none) : keep m (spares tag hits [x]) = m := by
  refine keep_eq_self fun t e ht => spares_of_ne ?_ e
  rintro rfl
  rw [h] at ht
  cases ht

/-- So does an item for another time. -/
theorem keep_spares_of_miss (h : m.lookup (tag x) = some e) (hmiss : hits x e = false) :
    keep m (spares tag hits [x]) = m := by
  refine keep_eq_self fun t e' ht => ?_
  by_cases htx : t = tag x
  · subst htx
    rw [h] at ht
    cases ht
    rw [spares_self, hmiss]
    rfl
  · exact spares_of_ne htx e'

theorem erase_eq_keep_spares (h : m.lookup (tag x) = some e) (hhit : hits x e = true) :
    m.erase (tag x) = keep m (spares tag hits [x]) := by
  rw [erase_eq_keep]
  refine keep_congr fun t e' ht => ?_
  by_cases htx : t = tag x
  · subst htx
    rw [h] at ht
    cases ht
    rw [spares_self, hhit]
    simp
  · rw [spares_of_ne htx e']
    simpa using htx

end Spares

section Loops

variable {q : SubscriberQueue} {ds : List (QueueEntry × DropReason)} {now maxRetries : Nat}

/-- No tag stands for two messages. -/
def Disjoint (q : SubscriberQueue) : Prop :=
  ∀ t, q.pendingEntries.lookup t = none ∨ q.inflight.lookup t = none

/-- Is this the time the entry expires? -/
def expiresBy (x : ExpirationEntry) (e : QueueEntry) : Bool := e.expiresAt = some x.expiresAt

/-- The entry an item of the expiration heap is about. -/
def expiring (q : SubscriberQueue) (x : ExpirationEntry) : Option QueueEntry :=
  ((q.pendingEntries.lookup x.tag).or (q.inflight.lookup x.tag)).filter (expiresBy x)

/-- The queue without the entries that the items are about. -/
def withoutExpiring (q : SubscriberQueue) (items : List ExpirationEntry) : SubscriberQueue :=
  { q with
    pendingEntries := keep q.pendingEntries (spares ExpirationEntry.tag expiresBy items)
    inflight := keep q.inflight (spares ExpirationEntry.tag expiresBy items) }

theorem expireOne_eq (hdisj : q.Disjoint) (x : ExpirationEntry) :
    expireOne (q, ds) x =
      (q.withoutExpiring [x], ds ++ (q.expiring x).toList.map (·, .ttlExpired)) := by
  unfold expireOne expiring withoutExpiring
  cases hp : q.pendingEntries.lookup x.tag with
  | some e =>
    have hi : q.inflight.lookup x.tag = none := by
      rcases hdisj x.tag with h | h
      · rw [hp] at h
        cases h
      · exact h
    rw [keep_spares_of_none hi]
    by_cases he : e.expiresAt = some x.expiresAt
    · rw [← erase_eq_keep_spares hp (by simpa [expiresBy] using he)]
      simp [he, Option.filter, expiresBy]
    · rw [keep_spares_of_miss hp (by simpa [expiresBy] using he)]
      simp [he, expiresBy]
  | none =>
    rw [keep_spares_of_none hp]
    cases hi : q.inflight.lookup x.tag with
    | none =>
      rw [keep_spares_of_none hi]
      simp
    | some e =>
      by_cases he : e.expiresAt = some x.expiresAt
      · rw [← erase_eq_keep_spares hi (by simpa [expiresBy] using he)]
        simp [he, Option.filter, expiresBy]
      · rw [keep_spares_of_miss hi (by simpa [expiresBy] using he)]
        simp [he, expiresBy]

theorem Disjoint.withoutExpiring (h : q.Disjoint) (items : List ExpirationEntry) :
    (q.withoutExpiring items).Disjoint := by
  intro t
  unfold SubscriberQueue.withoutExpiring
  rw [lookup_keep, lookup_keep]
  rcases h t with h | h
  · exact .inl (by rw [h]; rfl)
  · exact .inr (by rw [h]; rfl)

theorem foldl_expireOne (hdisj : q.Disjoint) {items : List ExpirationEntry}
    (hnd : (items.map ExpirationEntry.tag).Nodup) :
    items.foldl expireOne (q, ds) =
      (q.withoutExpiring items, ds ++ (items.filterMap q.expiring).map (·, .ttlExpired)) := by
  induction items generalizing q ds with
  | nil => simp [withoutExpiring, keep_spares_nil]
  | cons x items ih =>
    obtain ⟨hx, hnd⟩ := List.nodup_cons.mp hnd
    -- tags are distinct, so the first item changes nothing for the others
    have hsame : items.filterMap (q.withoutExpiring [x]).expiring =
        items.filterMap q.expiring := by
      refine List.filterMap_congr fun y hy => ?_
      have hne : y.tag ≠ x.tag := fun he => hx (he ▸ List.mem_map_of_mem hy)
      simp only [expiring, withoutExpiring, lookup_keep_spares hne]
    rw [List.foldl_cons, expireOne_eq hdisj, ih (hdisj.withoutExpiring _) hnd, hsame]
    simp only [withoutExpiring, keep_spares_cons]
    cases hx : q.expiring x <;> simp [hx]

/-- Is this the time of the entry's next delivery? -/
def retriesBy (x : RetryEntry) (e : QueueEntry) : Bool := e.nextDeliveryAt = x.nextDeliveryAt

/-- The entry an item of the retry heap is about. -/
def retrying (q : SubscriberQueue) (x : RetryEntry) : Option QueueEntry :=
  (q.inflight.lookup x.tag).filter (retriesBy x)

/-- The entries put back, in their order. -/
def putBack (q : SubscriberQueue) (now : Nat) (back : List QueueEntry) : SubscriberQueue :=
  { q with
    pending := q.pending ++ back.map QueueEntry.tag
    pendingEntries := back.foldl (fun m e => m.insert e.tag (e.retryAt now)) q.pendingEntries }

/-- The queue without the inflight entries that the items are about. -/
def withoutRetrying (q : SubscriberQueue) (items : List RetryEntry) : SubscriberQueue :=
  { q with inflight := keep q.inflight (spares RetryEntry.tag retriesBy items) }

theorem retryOne_eq (x : RetryEntry) :
    retryOne now maxRetries (q, ds) x =
      ((q.withoutRetrying [x]).putBack now
          ((q.retrying x).toList.filter (·.deliveryAttempts < maxRetries)),
        ds ++ ((q.retrying x).toList.filter (maxRetries ≤ ·.deliveryAttempts)).map
          (·, .maxRetriesExceeded)) := by
  unfold retryOne retrying putBack withoutRetrying
  cases hi : q.inflight.lookup x.tag with
  | none =>
    rw [keep_spares_of_none hi]
    simp
  | some e =>
    by_cases he : e.nextDeliveryAt = x.nextDeliveryAt
    · rw [← erase_eq_keep_spares hi (by simpa [retriesBy] using he)]
      by_cases hmax : maxRetries ≤ e.deliveryAttempts
      · have hnot : ¬ e.deliveryAttempts < maxRetries := by omega
        simp [he, Option.filter, retriesBy, hmax, hnot]
      · have hlt : e.deliveryAttempts < maxRetries := by omega
        simp [he, Option.filter, retriesBy, hmax, hlt]
    · rw [keep_spares_of_miss hi (by simpa [retriesBy] using he)]
      simp [he, Option.filter, retriesBy]

theorem foldl_retryOne {items : List RetryEntry} (hnd : (items.map RetryEntry.tag).Nodup) :
    items.foldl (retryOne now maxRetries) (q, ds) =
      ((q.withoutRetrying items).putBack now
          ((items.filterMap q.retrying).filter (·.deliveryAttempts < maxRetries)),
        ds ++ ((items.filterMap q.retrying).filter (maxRetries ≤ ·.deliveryAttempts)).map
          (·, .maxRetriesExceeded)) := by
  induction items generalizing q ds with
  | nil => simp [withoutRetrying, putBack, keep_spares_nil]
  | cons x items ih =>
    obtain ⟨hx, hnd⟩ := List.nodup_cons.mp hnd
    -- the entries put back wait in `pending`; the items look at `inflight`
    have hsame : ∀ back, items.filterMap (((q.withoutRetrying [x]).putBack now back).retrying) =
        items.filterMap q.retrying := by
      intro back
      refine List.filterMap_congr fun y hy => ?_
      have hne : y.tag ≠ x.tag := fun he => hx (he ▸ List.mem_map_of_mem hy)
      simp only [retrying, putBack, withoutRetrying, lookup_keep_spares hne]
    rw [List.foldl_cons, retryOne_eq, ih hnd, hsame]
    simp only [withoutRetrying, putBack, keep_spares_cons]
    have hcons : (x :: items).filterMap q.retrying =
        (q.retrying x).toList ++ items.filterMap q.retrying := by
      cases hr : q.retrying x <;> simp [hr]
    rw [hcons, List.filter_append, List.filter_append, List.map_append, List.map_append,
      List.append_assoc, List.append_assoc, List.foldl_append]

end Loops

end SubscriberQueue

end BlipMQ.Core
