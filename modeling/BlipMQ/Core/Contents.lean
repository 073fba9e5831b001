import BlipMQ.Core.Tick

/-!
# Broker — what a polled queue holds

Seen from outside, a queue holds the entries that wait, in their order, and
the entries in flight; tombstones and heaps are its own business. This
module says what each operation does to the contents and proves it of the
queue, for every run of a queue that is filled by `enqueue`.
-/

namespace BlipMQ.Core

namespace QueueEntry

def expired (e : QueueEntry) (now : Nat) : Bool := e.expiresAt.any (· ≤ now)

def due (e : QueueEntry) (now : Nat) : Bool := e.nextDeliveryAt ≤ now

/-- The item of the retry heap that belongs to an entry in flight. -/
def retryKey (e : QueueEntry) : RetryEntry := ⟨e.nextDeliveryAt, e.tag⟩

end QueueEntry

/-! ## The contents and their operations -/

structure Contents where
  waiting : List QueueEntry
  inflight : List QueueEntry

namespace Contents

/-- How many waiting entries have to go before one more is stored: as many as are
over the capacity, if so many are there. -/
def evictions (c : Contents) (capacity : Nat) : Nat :=
  min c.waiting.length (c.waiting.length + c.inflight.length + 1 - capacity)

def evicted (c : Contents) (capacity : Nat) : List QueueEntry :=
  c.waiting.take (c.evictions capacity)

def enqueue (c : Contents) (capacity : Nat) (e : QueueEntry) : Contents :=
  { c with waiting := c.waiting.drop (c.evictions capacity) ++ [e] }

/-- The first waiting entry is handed out, at QoS1 with a copy in flight. -/
def dequeue (c : Contents) (now baseDelay : Nat) : Contents × Option QueueEntry :=
  match c.waiting with
  | [] => (c, none)
  | e :: waiting =>
    match e.qos with
    | .atMostOnce => ({ c with waiting := waiting }, some e)
    | .atLeastOnce =>
      let e := SubscriberQueue.attempt e now baseDelay
      (⟨waiting, e :: c.inflight⟩, some e)

def ack (c : Contents) (tag : Nat) : Contents :=
  { c with inflight := c.inflight.filter (·.tag ≠ tag) }

/-- The tick as a plain scan: first what has expired goes, from both places; of
the rest, what is in flight and due goes if it has been tried often enough,
and otherwise waits again, behind the others and in the order of
`(next_delivery_at, tag)`. -/
def scan (c : Contents) (now maxRetries : Nat) : Contents × List (QueueEntry × DropReason) :=
  let alive := c.inflight.filter (!·.expired now)
  let dueNow := alive.filter (·.due now)
  let back := (dueNow.filter (·.deliveryAttempts < maxRetries)).insertionSort
    (fun a b => a.retryKey ≤ b.retryKey)
  (⟨c.waiting.filter (!·.expired now) ++ back.map (·.retryAt now), alive.filter (!·.due now)⟩,
    ((c.waiting ++ c.inflight).filter (·.expired now)).map (·, .ttlExpired) ++
      (dueNow.filter (maxRetries ≤ ·.deliveryAttempts)).map (·, .maxRetriesExceeded))

end Contents

namespace SubscriberQueue

def contents (q : SubscriberQueue) : Contents := ⟨q.waiting, q.inflight.entries.map Sigma.snd⟩

/-! ## The invariant -/

/-- A queue that has taken `n` messages. Live entries stand under their own tags;
each has its items in the heaps, and no tag has two items in one heap. -/
structure Inv (q : SubscriberQueue) (n : Nat) : Prop where
  nextTag : q.nextTag = (n + 1) % 2 ^ 64
  pending_nodup : q.pending.Nodup
  pending_le : ∀ t ∈ q.pending, t ≤ n
  pendingEntries : ∀ t e, q.pendingEntries.lookup t = some e → e.tag = t ∧ t ∈ q.pending
  inflight : ∀ t e, q.inflight.lookup t = some e → e.tag = t ∧ t ≤ n ∧ t ∉ q.pending
  expiration_nodup : (q.expirationHeap.map ExpirationEntry.tag).Nodup
  expiration_le : ∀ x ∈ q.expirationHeap, x.tag ≤ n
  expiration : ∀ t e x, q.pendingEntries.lookup t = some e ∨ q.inflight.lookup t = some e →
    e.expiresAt = some x → ⟨x, t⟩ ∈ q.expirationHeap
  retry_nodup : (q.retryHeap.map RetryEntry.tag).Nodup
  retry_le : ∀ x ∈ q.retryHeap, x.tag ≤ n ∧ q.pendingEntries.lookup x.tag = none
  retry : ∀ t e, q.inflight.lookup t = some e → ⟨e.nextDeliveryAt, t⟩ ∈ q.retryHeap

theorem Inv.new (defaultQos : QoSLevel) (capacity : Nat) : (new defaultQos capacity).Inv 0 where
  nextTag := rfl
  pending_nodup := .nil
  pending_le := nofun
  pendingEntries := nofun
  inflight := nofun
  expiration_nodup := .nil
  expiration_le := nofun
  expiration := by
    rintro t e x (h | h) <;> cases h
  retry_nodup := .nil
  retry_le := nofun
  retry := nofun

section Inv

variable {q : SubscriberQueue} {n : Nat}

theorem Inv.disjoint (h : q.Inv n) : q.Disjoint := by
  intro t
  cases hp : q.pendingEntries.lookup t with
  | none => exact .inl rfl
  | some e =>
    cases hi : q.inflight.lookup t with
    | none => exact .inr rfl
    | some e' => exact absurd (h.pendingEntries t e hp).2 (h.inflight t e' hi).2.2

/-! ## Lookups and lists -/

/-- The entries under the tags of a list; tags without one are passed over. -/
def live (m : Entries) (tags : List Nat) : List QueueEntry := tags.filterMap fun t => m.lookup t

variable {m : Entries} {e : QueueEntry} {tags rest pending : List Nat} {t : Nat}

theorem live_cons_none (h : m.lookup t = none) : live m (t :: tags) = live m tags :=
  List.filterMap_cons_none h

theorem live_cons_some (h : m.lookup t = some e) : live m (t :: tags) = e :: live m tags :=
  List.filterMap_cons_some h

theorem live_append (m : Entries) (s t : List Nat) : live m (s ++ t) = live m s ++ live m t :=
  List.filterMap_append

theorem live_congr {m' : Entries} (h : ∀ t ∈ tags, m.lookup t = m'.lookup t) :
    live m tags = live m' tags :=
  List.filterMap_congr h

theorem live_erase (h : t ∉ tags) : live (m.erase t) tags = live m tags :=
  live_congr fun _ hs => AList.lookup_erase_ne fun he => h (he ▸ hs)

theorem live_insert (h : t ∉ tags) (e : QueueEntry) : live (m.insert t e) tags = live m tags :=
  live_congr fun _ hs => AList.lookup_insert_ne fun he => h (he ▸ hs)

/-- Tags that are all there, each once, give every entry once. -/
theorem live_perm (hnd : tags.Nodup) (hsub : ∀ t e, m.lookup t = some e → t ∈ tags) :
    (live m tags).Perm (m.entries.map Sigma.snd) := by
  have hpairs : (tags.filterMap fun t => (m.lookup t).map (Sigma.mk t)).Perm m.entries := by
    refine (List.perm_ext_iff_of_nodup ?_ m.nodupKeys.nodup).mpr fun p => ?_
    · refine hnd.filterMap fun a b p ha hb => ?_
      obtain ⟨_, _, rfl⟩ := Option.map_eq_some_iff.mp ha
      obtain ⟨_, _, heq⟩ := Option.map_eq_some_iff.mp hb
      cases heq
      rfl
    · rw [List.mem_filterMap]
      constructor
      · rintro ⟨t, -, ht⟩
        obtain ⟨e, he, rfl⟩ := Option.map_eq_some_iff.mp ht
        exact AList.mem_lookup_iff.mp he
      · intro hp
        have hlook : m.lookup p.1 = some p.2 := AList.mem_lookup_iff.mpr hp
        exact ⟨p.1, hsub _ _ hlook, by rw [hlook]; rfl⟩
  have hmap := hpairs.map Sigma.snd
  rw [List.map_filterMap] at hmap
  simpa only [live, Option.map_map, Function.comp_def, Option.map_id'] using hmap

theorem waiting_eq_live (q : SubscriberQueue) : q.waiting = live q.pendingEntries q.pending := rfl

theorem Inv.waiting_perm (h : q.Inv n) :
    q.waiting.Perm (q.pendingEntries.entries.map Sigma.snd) :=
  live_perm h.pending_nodup fun t e ht => (h.pendingEntries t e ht).2

theorem mem_inflight (htag : ∀ t e, m.lookup t = some e → e.tag = t) :
    e ∈ m.entries.map Sigma.snd ↔ m.lookup e.tag = some e := by
  rw [List.mem_map]
  constructor
  · rintro ⟨⟨t, e'⟩, hmem, rfl⟩
    have hlook : m.lookup t = some e' := AList.mem_lookup_iff.mpr hmem
    rwa [show e'.tag = t from htag t e' hlook]
  · intro hlook
    exact ⟨⟨e.tag, e⟩, AList.mem_lookup_iff.mp hlook, rfl⟩

theorem Inv.mem_waiting (h : q.Inv n) :
    e ∈ q.contents.waiting ↔ q.pendingEntries.lookup e.tag = some e := by
  show e ∈ q.waiting ↔ _
  rw [h.waiting_perm.mem_iff]
  exact mem_inflight fun t e ht => (h.pendingEntries t e ht).1

theorem Inv.mem_inflight (h : q.Inv n) :
    e ∈ q.contents.inflight ↔ q.inflight.lookup e.tag = some e :=
  SubscriberQueue.mem_inflight fun t e ht => (h.inflight t e ht).1

/-! ## Enqueue -/

/-- The loop drops tags from the front, and with them the first waiting entries,
as many as are over the capacity. -/
theorem makeRoom_spec (capacity inflight : Nat) (hnd : pending.Nodup)
    (hsub : ∀ t e, m.lookup t = some e → t ∈ pending) :
    ∃ gone, pending = gone ++ (makeRoom capacity inflight pending m).1 ∧
      (∀ t e, (makeRoom capacity inflight pending m).2.lookup t = some e →
        m.lookup t = some e ∧ t ∉ gone) ∧
      live (makeRoom capacity inflight pending m).2 (makeRoom capacity inflight pending m).1 =
        (live m pending).drop
          (min (live m pending).length ((live m pending).length + inflight + 1 - capacity)) := by
  induction pending generalizing m with
  | nil => exact ⟨[], rfl, fun t e h => ⟨h, List.not_mem_nil⟩, rfl⟩
  | cons t pending ih =>
    have hlen : m.entries.length = (live m (t :: pending)).length := by
      rw [(live_perm hnd hsub).length_eq, List.length_map]
    obtain ⟨ht, hnd⟩ := List.nodup_cons.mp hnd
    by_cases hfull : capacity ≤ m.entries.length + inflight
    · have hstep : makeRoom capacity inflight (t :: pending) m =
          makeRoom capacity inflight pending (m.erase t) := if_pos hfull
      have herase : ∀ s e, (m.erase t).lookup s = some e → m.lookup s = some e ∧ s ≠ t :=
        fun s e hs => (lookup_erase_eq_some.mp hs).symm
      obtain ⟨gone, hsplit, hlook, hdrop⟩ := ih hnd fun s e hs =>
        (List.mem_cons.mp (hsub s e (herase s e hs).1)).resolve_left (herase s e hs).2
      rw [hstep]
      refine ⟨t :: gone, congrArg (t :: ·) hsplit, ?_, ?_⟩
      · intro s e hs
        obtain ⟨hl, hgone⟩ := hlook s e hs
        obtain ⟨hl, hne⟩ := herase s e hl
        exact ⟨hl, fun hmem => (List.mem_cons.mp hmem).elim hne hgone⟩
      · rw [hdrop, live_erase ht]
        -- a tag without an entry is passed over, any other one takes its entry along
        cases hl : m.lookup t with
        | none => rw [live_cons_none hl]
        | some e =>
          rw [live_cons_some hl, List.length_cons] at hlen ⊢
          have hcount : min ((live m pending).length + 1)
              ((live m pending).length + 1 + inflight + 1 - capacity) =
              min (live m pending).length
                ((live m pending).length + inflight + 1 - capacity) + 1 := by
            omega
          rw [hcount, List.drop_succ_cons]
    · have hstep : makeRoom capacity inflight (t :: pending) m = (t :: pending, m) :=
        if_neg hfull
      have hzero : (live m (t :: pending)).length + inflight + 1 - capacity = 0 := by omega
      rw [hstep]
      refine ⟨[], rfl, fun s e h => ⟨h, List.not_mem_nil⟩, ?_⟩
      rw [hzero, Nat.min_zero, List.drop_zero]

/-- The entry of a message that arrives. -/
def arrival (q : SubscriberQueue) (now : Nat) (payload : Bytes) (messageQos : QoSLevel)
    (walId ttl : Option Nat) : QueueEntry :=
  ⟨q.nextTag, payload, effectiveQos q.defaultQos messageQos, walId, now, ttl, 0, now⟩

theorem Inv.nextTag_eq (h : q.Inv n) (hn : n + 1 < 2 ^ 64) : q.nextTag = n + 1 := by
  rw [h.nextTag, Nat.mod_eq_of_lt hn]

/-- The pending tags and entries once there is room for a message. -/
def room (q : SubscriberQueue) : List Nat × Entries :=
  makeRoom q.capacity q.inflight.entries.length q.pending q.pendingEntries

theorem Inv.room (h : q.Inv n) :
    q.room.1 <:+ q.pending ∧
      (∀ t e, q.room.2.lookup t = some e → q.pendingEntries.lookup t = some e ∧ t ∈ q.room.1) ∧
      live q.room.2 q.room.1 = q.waiting.drop (q.contents.evictions q.capacity) := by
  have hsub : ∀ t e, q.pendingEntries.lookup t = some e → t ∈ q.pending :=
    fun t e ht => (h.pendingEntries t e ht).2
  obtain ⟨gone, hsplit, hlook, hdrop⟩ :=
    makeRoom_spec q.capacity q.inflight.entries.length h.pending_nodup hsub
  refine ⟨⟨gone, hsplit.symm⟩, fun t e ht => ?_, ?_⟩
  · obtain ⟨hl, hgone⟩ := hlook t e ht
    have hmem := hsub t e hl
    rw [hsplit, List.mem_append] at hmem
    exact ⟨hl, hmem.resolve_left hgone⟩
  · unfold Contents.evictions contents
    rw [List.length_map]
    exact hdrop

theorem mem_pushExpiration {heap : List ExpirationEntry} {x : ExpirationEntry} :
    x ∈ pushExpiration heap e ↔ x ∈ heap ∨ (e.expiresAt = some x.expiresAt ∧ x.tag = e.tag) := by
  unfold pushExpiration QueueEntry.expiresAt
  cases e.ttl with
  | none => simp
  | some ttl =>
    obtain ⟨at_, tag⟩ := x
    simp only [List.mem_cons, ExpirationEntry.mk.injEq, Option.map_some, Option.some.injEq]
    constructor
    · rintro (⟨rfl, rfl⟩ | hx)
      · exact .inr ⟨rfl, rfl⟩
      · exact .inl hx
    · rintro (hx | ⟨rfl, rfl⟩)
      · exact .inr hx
      · exact .inl ⟨rfl, rfl⟩

theorem Inv.nextTag_notMem (h : q.Inv n) (hn : n + 1 < 2 ^ 64) : q.nextTag ∉ q.room.1 := by
  intro hmem
  have hle := h.pending_le q.nextTag (h.room.1.subset hmem)
  rw [h.nextTag_eq hn] at hle
  omega

theorem contents_enqueue (h : q.Inv n) (hn : n + 1 < 2 ^ 64) (now : Nat) (payload : Bytes)
    (qos : QoSLevel) (walId ttl : Option Nat) :
    (q.enqueue now payload qos walId ttl).contents =
      q.contents.enqueue q.capacity (q.arrival now payload qos walId ttl) := by
  have hwaiting : (q.enqueue now payload qos walId ttl).waiting =
      live q.room.2 q.room.1 ++ [q.arrival now payload qos walId ttl] := by
    show live (q.room.2.insert q.nextTag (q.arrival now payload qos walId ttl))
      (q.room.1 ++ [q.nextTag]) = _
    rw [live_append, live_insert (h.nextTag_notMem hn), live_cons_some (AList.lookup_insert _)]
    rfl
  unfold contents Contents.enqueue
  rw [hwaiting, h.room.2.2]
  rfl

theorem Inv.enqueue (h : q.Inv n) (hn : n + 1 < 2 ^ 64) (now : Nat) (payload : Bytes)
    (qos : QoSLevel) (walId ttl : Option Nat) :
    (q.enqueue now payload qos walId ttl).Inv (n + 1) := by
  obtain ⟨hsuffix, hlook, -⟩ := h.room
  have htag := h.nextTag_eq hn
  have hnew := h.nextTag_notMem hn
  -- an entry of the new map is the new one or one that was there
  have hcases : ∀ t e, (q.enqueue now payload qos walId ttl).pendingEntries.lookup t = some e →
      (t = q.nextTag ∧ e = q.arrival now payload qos walId ttl) ∨
        (q.pendingEntries.lookup t = some e ∧ t ∈ q.room.1) := by
    exact fun t e ht => (lookup_insert_cases ht).imp_right (hlook t e)
  refine
    { nextTag := ?_, pending_nodup := ?_, pending_le := ?_, pendingEntries := ?_, inflight := ?_,
      expiration_nodup := ?_, expiration_le := ?_, expiration := ?_, retry_nodup := h.retry_nodup,
      retry_le := ?_, retry := h.retry }
  · show (q.nextTag + 1) % 2 ^ 64 = (n + 1 + 1) % 2 ^ 64
    rw [htag]
  · show (q.room.1 ++ [q.nextTag]).Nodup
    rw [← List.concat_eq_append]
    exact (h.pending_nodup.sublist hsuffix.sublist).concat hnew
  · exact forall_mem_concat
      (fun t ht => Nat.le_succ_of_le (h.pending_le t (hsuffix.subset ht))) (Nat.le_of_eq htag)
  · intro t e ht
    rcases hcases t e ht with ⟨rfl, rfl⟩ | ⟨hold, hmem⟩
    · exact ⟨rfl, List.mem_append_right _ (List.mem_singleton_self _)⟩
    · exact ⟨(h.pendingEntries t e hold).1, List.mem_append_left _ hmem⟩
  · intro t e ht
    obtain ⟨hte, hle, hnot⟩ := h.inflight t e ht
    refine ⟨hte, Nat.le_succ_of_le hle, fun hmem => ?_⟩
    rcases List.mem_append.mp hmem with hold | hnew
    · exact hnot (hsuffix.subset hold)
    · rw [List.mem_singleton.mp hnew] at hle
      change q.nextTag ≤ n at hle
      omega
  · show ((pushExpiration q.expirationHeap (q.arrival now payload qos walId ttl)).map _).Nodup
    cases ttl with
    | none => exact h.expiration_nodup
    | some ttl =>
      refine List.nodup_cons.mpr ⟨fun hmem => ?_, h.expiration_nodup⟩
      obtain ⟨x, hx, hxt⟩ := List.mem_map.mp hmem
      have hle := h.expiration_le x hx
      change x.tag = q.nextTag at hxt
      omega
  · intro x hx
    rcases mem_pushExpiration.mp hx with hold | ⟨-, hxt⟩
    · exact Nat.le_succ_of_le (h.expiration_le x hold)
    · rw [hxt]
      exact Nat.le_of_eq htag
  · intro t e x ht hx
    refine mem_pushExpiration.mpr ?_
    rcases ht with ht | ht
    · rcases hcases t e ht with ⟨rfl, rfl⟩ | ⟨hold, -⟩
      · exact .inr ⟨hx, rfl⟩
      · exact .inl (h.expiration t e x (.inl hold) hx)
    · exact .inl (h.expiration t e x (.inr ht) hx)
  · intro x hx
    obtain ⟨hle, hnone⟩ := h.retry_le x hx
    refine ⟨Nat.le_succ_of_le hle, ?_⟩
    cases hl : (q.enqueue now payload qos walId ttl).pendingEntries.lookup x.tag with
    | none => rfl
    | some e =>
      rcases hcases _ e hl with ⟨heq, -⟩ | ⟨hold, -⟩
      · omega
      · rw [hnone] at hold
        cases hold

/-! ## Dequeue and ack -/

/-- The queue without the pending entry of the tag before `rest`. -/
def take (q : SubscriberQueue) (tag : Nat) (rest : List Nat) : SubscriberQueue :=
  { q with pending := rest, pendingEntries := q.pendingEntries.erase tag }

/-- The queue with the entry in flight, to be retried at its time. -/
def hold (q : SubscriberQueue) (e : QueueEntry) : SubscriberQueue :=
  { q with inflight := q.inflight.insert e.tag e, retryHeap := e.retryKey :: q.retryHeap }

theorem popPending_none_iff : (popPending pending m).2 = none ↔ live m pending = [] := by
  induction pending with
  | nil => exact ⟨fun _ => rfl, fun _ => rfl⟩
  | cons t pending ih =>
    unfold popPending
    cases hl : m.lookup t with
    | none =>
      rw [live_cons_none hl]
      exact ih
    | some e =>
      rw [live_cons_some hl]
      exact ⟨by simp, by simp⟩

/-- The first tag with an entry; those before it have none. -/
theorem popPending_split (h : popPending pending m = (rest, some (t, e))) :
    ∃ dead, pending = dead ++ t :: rest ∧ (∀ s ∈ dead, m.lookup s = none) ∧
      m.lookup t = some e ∧ live m pending = e :: live m rest := by
  induction pending with
  | nil => cases h
  | cons s pending ih =>
    unfold popPending at h
    cases hl : m.lookup s with
    | none =>
      rw [hl] at h
      obtain ⟨dead, rfl, hdead, ht, hlive⟩ := ih h
      refine ⟨s :: dead, rfl, ?_, ht, ?_⟩
      · rintro r (_ | ⟨_, hr⟩)
        · exact hl
        · exact hdead r hr
      · rw [live_cons_none hl, hlive]
    | some e' =>
      rw [hl] at h
      cases h
      exact ⟨[], rfl, by simp, hl, live_cons_some hl⟩

theorem popPending_rest_of_none (h : popPending pending m = (rest, none)) : rest = [] := by
  induction pending with
  | nil =>
    cases h
    rfl
  | cons t pending ih =>
    unfold popPending at h
    split at h
    · exact ih h
    · cases h

/-- What `dequeue` does, by whether an entry waits. -/
theorem dequeue_cases (q : SubscriberQueue) (now baseDelay : Nat) :
    (q.waiting = [] ∧ q.dequeue now baseDelay = ({ q with pending := [] }, none)) ∨
    ∃ dead t rest e, q.pending = dead ++ t :: rest ∧
      (∀ s ∈ dead, q.pendingEntries.lookup s = none) ∧ q.pendingEntries.lookup t = some e ∧
      q.waiting = e :: live q.pendingEntries rest ∧
      q.dequeue now baseDelay = match e.qos with
        | .atMostOnce => (q.take t rest, some (e, none))
        | .atLeastOnce => ((q.take t rest).hold (attempt e now baseDelay),
            some (attempt e now baseDelay, some e.tag)) := by
  cases hpop : popPending q.pending q.pendingEntries with
  | mk rest out =>
    cases out with
    | none =>
      refine .inl ⟨popPending_none_iff.mp (by rw [hpop]), ?_⟩
      rw [SubscriberQueue.dequeue, hpop, popPending_rest_of_none hpop]
    | some te =>
      obtain ⟨t, e⟩ := te
      obtain ⟨dead, hsplit, hdead, hl, hlive⟩ := popPending_split hpop
      refine .inr ⟨dead, t, rest, e, hsplit, hdead, hl, hlive, ?_⟩
      rw [SubscriberQueue.dequeue, hpop]
      dsimp only
      cases e.qos <;> rfl

variable {dead : List Nat}

theorem Inv.take (h : q.Inv n) (hsplit : q.pending = dead ++ t :: rest)
    (hdead : ∀ s ∈ dead, q.pendingEntries.lookup s = none) : (q.take t rest).Inv n := by
  have hsub : rest.Sublist q.pending := by
    rw [hsplit]
    exact (List.sublist_cons_self t rest).trans (List.sublist_append_right ..)
  have hcases : ∀ s e, (q.take t rest).pendingEntries.lookup s = some e →
      s ≠ t ∧ q.pendingEntries.lookup s = some e := fun s e hs => lookup_erase_eq_some.mp hs
  refine
    { nextTag := h.nextTag, pending_nodup := h.pending_nodup.sublist hsub,
      pending_le := fun s hs => h.pending_le s (hsub.subset hs), pendingEntries := ?_,
      inflight := ?_, expiration_nodup := h.expiration_nodup, expiration_le := h.expiration_le,
      expiration := ?_, retry_nodup := h.retry_nodup, retry_le := ?_, retry := h.retry }
  · intro s e hs
    obtain ⟨hne, hs⟩ := hcases s e hs
    obtain ⟨htag, hmem⟩ := h.pendingEntries s e hs
    refine ⟨htag, ?_⟩
    rw [hsplit, List.mem_append, List.mem_cons] at hmem
    rcases hmem with hmem | hmem | hmem
    · rw [hdead s hmem] at hs
      cases hs
    · exact absurd hmem hne
    · exact hmem
  · intro s e hs
    obtain ⟨htag, hle, hnot⟩ := h.inflight s e hs
    exact ⟨htag, hle, fun hmem => hnot (hsub.subset hmem)⟩
  · intro s e x hs hx
    exact h.expiration s e x (hs.imp_left fun hs => (hcases s e hs).2) hx
  · intro x hx
    obtain ⟨hle, hnone⟩ := h.retry_le x hx
    refine ⟨hle, ?_⟩
    show (q.pendingEntries.erase t).lookup x.tag = none
    rw [lookup_erase_eq, hnone, ite_self]

theorem Inv.hold (h : q.Inv n) (hle : e.tag ≤ n) (hpending : e.tag ∉ q.pending)
    (hretry : e.tag ∉ q.retryHeap.map RetryEntry.tag)
    (hexp : ∀ x, e.expiresAt = some x → ⟨x, e.tag⟩ ∈ q.expirationHeap) : (q.hold e).Inv n := by
  have hcases : ∀ s e', (q.hold e).inflight.lookup s = some e' →
      (s = e.tag ∧ e' = e) ∨ q.inflight.lookup s = some e' := fun s e' => lookup_insert_cases
  refine
    { nextTag := h.nextTag, pending_nodup := h.pending_nodup, pending_le := h.pending_le,
      pendingEntries := h.pendingEntries, inflight := ?_, expiration_nodup := h.expiration_nodup,
      expiration_le := h.expiration_le, expiration := ?_,
      retry_nodup := List.nodup_cons.mpr ⟨hretry, h.retry_nodup⟩, retry_le := ?_, retry := ?_ }
  · intro s e' hs
    rcases hcases s e' hs with ⟨rfl, rfl⟩ | hs
    · exact ⟨rfl, hle, hpending⟩
    · exact h.inflight s e' hs
  · intro s e' x hs hx
    rcases hs with hs | hs
    · exact h.expiration s e' x (.inl hs) hx
    · rcases hcases s e' hs with ⟨rfl, rfl⟩ | hs
      · exact hexp x hx
      · exact h.expiration s e' x (.inr hs) hx
  · intro x hx
    rcases List.mem_cons.mp hx with rfl | hx
    · refine ⟨hle, ?_⟩
      cases hl : q.pendingEntries.lookup e.tag with
      | none => exact hl
      | some e' => exact absurd (h.pendingEntries _ e' hl).2 hpending
    · exact h.retry_le x hx
  · intro s e' hs
    rcases hcases s e' hs with ⟨rfl, rfl⟩ | hs
    · exact List.mem_cons_self
    · exact List.mem_cons_of_mem _ (h.retry s e' hs)

/-- A tag that leaves `pending` is nowhere else. -/
theorem Inv.notMem_take (h : q.Inv n) (hsplit : q.pending = dead ++ t :: rest) : t ∉ rest := by
  have hnd := h.pending_nodup
  rw [hsplit] at hnd
  exact (List.nodup_cons.mp (List.nodup_append.mp hnd).2.1).1

/-- The queue once an entry is handed out at QoS1. -/
theorem Inv.handOut (h : q.Inv n) (hsplit : q.pending = dead ++ t :: rest)
    (hdead : ∀ s ∈ dead, q.pendingEntries.lookup s = none)
    (hl : q.pendingEntries.lookup t = some e) (now baseDelay : Nat) :
    ((q.take t rest).hold (attempt e now baseDelay)).Inv n := by
  obtain ⟨rfl, hmem⟩ := h.pendingEntries t e hl
  refine (h.take hsplit hdead).hold (h.pending_le _ hmem) (h.notMem_take hsplit) ?_ ?_
  · intro hretry
    obtain ⟨x, hx, hxt⟩ := List.mem_map.mp hretry
    have hnone := (h.retry_le x hx).2
    rw [hxt] at hnone
    change q.pendingEntries.lookup e.tag = none at hnone
    rw [hl] at hnone
    cases hnone
  · exact fun x hx => h.expiration e.tag e x (.inl hl) hx

theorem Inv.dequeue (h : q.Inv n) (now baseDelay : Nat) : (q.dequeue now baseDelay).1.Inv n := by
  rcases q.dequeue_cases now baseDelay with
    ⟨hnil, heq⟩ | ⟨dead, t, rest, e, hsplit, hdead, hl, -, heq⟩
  · have hnone : ∀ t e, q.pendingEntries.lookup t ≠ some e := by
      intro t e ht
      have hmem : e ∈ q.waiting := List.mem_filterMap.mpr ⟨t, (h.pendingEntries t e ht).2, ht⟩
      rw [hnil] at hmem
      cases hmem
    rw [heq]
    exact
      { nextTag := h.nextTag, pending_nodup := .nil, pending_le := nofun
        pendingEntries := fun t e ht => absurd ht (hnone t e)
        inflight := fun t e ht =>
          ⟨(h.inflight t e ht).1, (h.inflight t e ht).2.1, List.not_mem_nil⟩
        expiration_nodup := h.expiration_nodup, expiration_le := h.expiration_le
        expiration := h.expiration, retry_nodup := h.retry_nodup, retry_le := h.retry_le
        retry := h.retry }
  · rw [heq]
    cases e.qos with
    | atMostOnce => exact h.take hsplit hdead
    | atLeastOnce => exact h.handOut hsplit hdead hl now baseDelay

/-- `dequeue` hands out the first entry that waits. -/
theorem contents_dequeue (h : q.Inv n) (now baseDelay : Nat) :
    (q.dequeue now baseDelay).1.contents = (q.contents.dequeue now baseDelay).1 ∧
      (q.dequeue now baseDelay).2.map Prod.fst = (q.contents.dequeue now baseDelay).2 := by
  rcases q.dequeue_cases now baseDelay with ⟨hnil, heq⟩ | ⟨dead, t, rest, e, hsplit, -, hl, hw, heq⟩
  · have hc : q.contents = ⟨[], q.inflight.entries.map Sigma.snd⟩ := by rw [contents, hnil]
    rw [heq, hc]
    exact ⟨rfl, rfl⟩
  · have hc : q.contents = ⟨e :: live q.pendingEntries rest, q.inflight.entries.map Sigma.snd⟩ := by
      rw [contents, hw]
    have htake : (q.take t rest).waiting = live q.pendingEntries rest :=
      live_erase (h.notMem_take hsplit)
    rw [heq, hc, Contents.dequeue]
    dsimp only
    cases e.qos with
    | atMostOnce => exact ⟨by rw [contents, htake]; rfl, rfl⟩
    | atLeastOnce =>
      refine ⟨?_, rfl⟩
      obtain ⟨rfl, hmem⟩ := h.pendingEntries t e hl
      have hnew : (attempt e now baseDelay).tag ∉ q.inflight := by
        intro hin
        obtain ⟨e', he'⟩ := AList.lookup_isSome.mpr hin |> Option.isSome_iff_exists.mp
        exact (h.inflight _ e' he').2.2 hmem
      show Contents.mk (q.take e.tag rest).waiting
        ((q.inflight.insert _ (attempt e now baseDelay)).entries.map Sigma.snd) = _
      rw [htake, AList.entries_insert_of_notMem hnew]
      rfl

theorem values_keep (m : Entries) (p : QueueEntry → Bool) :
    (keep m fun _ e => p e).entries.map Sigma.snd = (m.entries.map Sigma.snd).filter p := by
  rw [List.filter_map]
  rfl

theorem contents_ack (h : q.Inv n) (tag : Nat) :
    (q.ack tag).1.contents = q.contents.ack tag := by
  have hkeep : q.inflight.erase tag = keep q.inflight fun _ e => e.tag ≠ tag := by
    rw [erase_eq_keep]
    refine keep_congr fun t e ht => ?_
    rw [(h.inflight t e ht).1]
  show Contents.mk q.waiting ((q.inflight.erase tag).entries.map Sigma.snd) = _
  rw [hkeep, values_keep]
  rfl

theorem Inv.keepInflight (h : q.Inv n)
    (hm : ∀ t e, m.lookup t = some e → q.inflight.lookup t = some e) :
    Inv { q with inflight := m } n :=
  { h with
    inflight := fun t e ht => h.inflight t e (hm t e ht)
    expiration := fun t e x ht => h.expiration t e x (ht.imp_right (hm t e))
    retry := fun t e ht => h.retry t e (hm t e ht) }

theorem Inv.ack (h : q.Inv n) (tag : Nat) : (q.ack tag).1.Inv n :=
  h.keepInflight fun _ _ ht => (lookup_erase_eq_some.mp ht).2

end Inv

end SubscriberQueue

end BlipMQ.Core
