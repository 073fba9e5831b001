import BlipMQ.Core.Scan

/-!
# Broker — no message is lost or duplicated in a queue

A history records, beside the queue, every message that arrived and where
those went that are no longer stored. The messages that arrived are at all
times, up to order, the ones in the six places together.
-/

namespace BlipMQ.Core

/-- The entry as it arrived; deliveries change nothing else of it. -/
def QueueEntry.message (e : QueueEntry) : QueueEntry :=
  { e with deliveryAttempts := 0, nextDeliveryAt := e.createdAt }

/-! ## The contents -/

namespace Contents

variable (c : Contents) (now maxRetries : Nat)

/-- The messages of the contents. -/
def messages : List QueueEntry := (c.waiting ++ c.inflight).map QueueEntry.message

theorem enqueue_perm (capacity : Nat) (e : QueueEntry) :
    (c.messages ++ [e.message]).Perm
      ((c.evicted capacity).map QueueEntry.message ++ (c.enqueue capacity e).messages) := by
  refine List.perm_iff_count.mpr fun m => ?_
  have hsplit := congrArg (List.count m ∘ List.map QueueEntry.message)
    (List.take_append_drop (c.evictions capacity) c.waiting)
  simp only [Function.comp_def, List.map_append, List.count_append] at hsplit
  simp only [messages, evicted, enqueue, List.map_append, List.count_append, List.map_cons,
    List.map_nil]
  omega

theorem ack_perm (tag : Nat) :
    c.messages.Perm
      ((c.inflight.filter (·.tag = tag)).map QueueEntry.message ++ (c.ack tag).messages) := by
  refine List.perm_iff_count.mpr fun m => ?_
  have hsplit := ((List.filter_append_perm (fun e : QueueEntry => e.tag = tag) c.inflight).map
    QueueEntry.message).count_eq m
  have hnot : (c.inflight.filter fun e => !decide (e.tag = tag)) =
      c.inflight.filter (·.tag ≠ tag) := by
    simp
  rw [hnot] at hsplit
  simp only [List.map_append, List.count_append] at hsplit
  simp only [messages, ack, List.map_append, List.count_append]
  omega

theorem messages_retryAt (l : List QueueEntry) (now : Nat) :
    (l.map (·.retryAt now)).map QueueEntry.message = l.map QueueEntry.message := by
  rw [List.map_map]
  rfl

theorem fst_dropped (l : List QueueEntry) (reason : DropReason) :
    (l.map fun e => (e, reason)).map Prod.fst = l := by
  rw [List.map_map]
  exact List.map_id l

theorem scan_perm :
    c.messages.Perm (((c.scan now maxRetries).2.map Prod.fst).map QueueEntry.message ++
      (c.scan now maxRetries).1.messages) := by
  refine List.perm_iff_count.mpr fun m => ?_
  -- every filter of the scan splits a list in two
  have hsplit : ∀ (p : QueueEntry → Bool) (l : List QueueEntry),
      (l.map QueueEntry.message).count m = ((l.filter p).map QueueEntry.message).count m +
        ((l.filter (!p ·)).map QueueEntry.message).count m := by
    intro p l
    have h := ((List.filter_append_perm p l).map QueueEntry.message).count_eq m
    rw [List.map_append, List.count_append] at h
    exact h.symm
  have hwaiting := hsplit (·.expired now) c.waiting
  have hinflight := hsplit (·.expired now) c.inflight
  have hdue := hsplit (·.due now) (c.inflight.filter (!·.expired now))
  have hretry := hsplit (maxRetries ≤ ·.deliveryAttempts)
    ((c.inflight.filter (!·.expired now)).filter (·.due now))
  have hback : ((c.inflight.filter (!·.expired now)).filter (·.due now)).filter
      (fun e => !decide (maxRetries ≤ e.deliveryAttempts)) =
      ((c.inflight.filter (!·.expired now)).filter (·.due now)).filter
        (·.deliveryAttempts < maxRetries) := by
    refine List.filter_congr fun e _ => ?_
    rw [Bool.eq_iff_iff]
    simp
  rw [hback] at hretry
  have hsort := ((List.perm_insertionSort (fun a b : QueueEntry => a.retryKey ≤ b.retryKey)
    (((c.inflight.filter (!·.expired now)).filter (·.due now)).filter
      (·.deliveryAttempts < maxRetries))).map QueueEntry.message).count_eq m
  simp only [messages, scan, List.map_append, List.count_append, List.filter_append,
    messages_retryAt, fst_dropped] at hwaiting hinflight hdue hretry hsort ⊢
  omega

end Contents

/-! ## Histories -/

/-- A queue with what arrived and what has left, the latter by the way it left. -/
structure History where
  queue : SubscriberQueue
  enqueued : List QueueEntry
  handedOut : List QueueEntry
  acked : List QueueEntry
  dropped : List QueueEntry
  evicted : List QueueEntry

namespace History

open SubscriberQueue (makeRoom)

def new (defaultQos : QoSLevel) (capacity : Nat) : History :=
  ⟨.new defaultQos capacity, [], [], [], [], []⟩

/-- The entries that the loop of `enqueue` removes, turn by turn as in
`makeRoom`. -/
def evictedBy (capacity inflight : Nat) : List Nat → Entries → List QueueEntry
  | [], _ => []
  | tag :: pending, entries =>
    if capacity ≤ entries.entries.length + inflight then
      (entries.lookup tag).toList ++ evictedBy capacity inflight pending (entries.erase tag)
    else []

/-- The operation, with what it takes in and what it lets go. -/
def act (h : History) : QueueAction → History
  | .enqueue now payload messageQos walId ttl =>
    let q := h.queue
    { h with
      queue := q.enqueue now payload messageQos walId ttl
      enqueued := h.enqueued ++ [q.arrival now payload messageQos walId ttl]
      evicted := h.evicted ++
        evictedBy q.capacity q.inflight.entries.length q.pending q.pendingEntries }
  | .dequeue now baseDelay =>
    match h.queue.dequeue now baseDelay with
    | (q, some (entry, none)) => { h with queue := q, handedOut := h.handedOut ++ [entry] }
    | (q, _) => { h with queue := q }
  | .ack tag =>
    { h with
      queue := (h.queue.ack tag).1
      acked := h.acked ++ (h.queue.inflight.lookup tag).toList }
  | .maintenanceTick now maxRetries =>
    let out := h.queue.sweep now maxRetries
    { h with queue := out.1, dropped := h.dropped ++ out.2.map Prod.fst }

theorem queue_act (h : History) (a : QueueAction) : (h.act a).queue = h.queue.act a := by
  cases a with
  | dequeue now baseDelay =>
    simp only [act, SubscriberQueue.act]
    split <;> simp_all
  | _ => rfl

theorem evictedBy_append {capacity inflight : Nat} {pending : List Nat} {m : Entries}
    (hnd : pending.Nodup) :
    evictedBy capacity inflight pending m ++
        SubscriberQueue.live (makeRoom capacity inflight pending m).2
          (makeRoom capacity inflight pending m).1 =
      SubscriberQueue.live m pending := by
  induction pending generalizing m with
  | nil => rfl
  | cons t pending ih =>
    obtain ⟨ht, hnd⟩ := List.nodup_cons.mp hnd
    unfold evictedBy
    by_cases hfull : capacity ≤ m.entries.length + inflight
    · have hstep : makeRoom capacity inflight (t :: pending) m =
          makeRoom capacity inflight pending (m.erase t) := if_pos hfull
      rw [if_pos hfull, hstep, List.append_assoc, ih hnd, SubscriberQueue.live_erase ht]
      cases hl : m.lookup t with
      | none => rw [SubscriberQueue.live_cons_none hl]; rfl
      | some e => rw [SubscriberQueue.live_cons_some hl]; rfl
    · have hstep : makeRoom capacity inflight (t :: pending) m = (t :: pending, m) :=
        if_neg hfull
      rw [if_neg hfull, hstep]
      rfl

variable {h : History} {n : Nat}

/-- The loop removes the first waiting entries. -/
theorem evictedBy_eq {q : SubscriberQueue} (h : q.Inv n) :
    evictedBy q.capacity q.inflight.entries.length q.pending q.pendingEntries =
      q.contents.evicted q.capacity := by
  have happend := @evictedBy_append q.capacity q.inflight.entries.length q.pending
    q.pendingEntries h.pending_nodup
  have hroom := h.room.2.2
  unfold SubscriberQueue.room at hroom
  rw [hroom, ← SubscriberQueue.waiting_eq_live] at happend
  exact List.append_cancel_right
    (happend.trans (List.take_append_drop (q.contents.evictions q.capacity) q.waiting).symm)

/-! ## Conservation -/

/-- Every message that is stored or has left, as it arrived. -/
def messages (h : History) : List QueueEntry :=
  h.queue.contents.messages ++
    (h.handedOut ++ h.acked ++ h.dropped ++ h.evicted).map QueueEntry.message

section Act

variable {h : History} {n : Nat}

theorem enqueue_perm (hinv : h.queue.Inv n) (hn : n + 1 < 2 ^ 64) (now : Nat) (payload : Bytes)
    (qos : QoSLevel) (walId ttl : Option Nat) :
    (h.messages ++ [h.queue.arrival now payload qos walId ttl]).Perm
      (h.act (.enqueue now payload qos walId ttl)).messages := by
  refine List.perm_iff_count.mpr fun m => ?_
  have hcontents := (h.queue.contents.enqueue_perm h.queue.capacity
    (h.queue.arrival now payload qos walId ttl)).count_eq m
  change List.count m (_ ++ [h.queue.arrival now payload qos walId ttl]) = _ at hcontents
  rw [← SubscriberQueue.contents_enqueue hinv hn, ← evictedBy_eq hinv] at hcontents
  simp only [messages, act, List.map_append, List.count_append] at hcontents ⊢
  omega

theorem dequeue_perm (hinv : h.queue.Inv n) (now baseDelay : Nat) :
    h.messages.Perm (h.act (.dequeue now baseDelay)).messages := by
  have hafter := (SubscriberQueue.contents_dequeue hinv now baseDelay).1
  rcases h.queue.dequeue_cases now baseDelay with ⟨hnil, heq⟩ | ⟨_, _, _, e, -, -, -, hw, heq⟩
  · have hc : h.queue.contents.dequeue now baseDelay = (h.queue.contents, none) := by
      rw [Contents.dequeue, show h.queue.contents.waiting = [] from hnil]
    rw [hc] at hafter
    simp only [messages, act, heq] at hafter ⊢
    rw [hafter]
  · have hc : h.queue.contents.waiting = e :: _ := hw
    refine List.perm_iff_count.mpr fun m => ?_
    cases hq : e.qos with
    | atMostOnce =>
      simp only [hq] at heq
      simp only [Contents.dequeue, hc, hq, heq] at hafter
      simp only [messages, act, heq, hafter, Contents.messages, hc, List.map_append,
        List.count_append, List.map_cons, List.count_cons, List.map_nil, List.count_nil]
      omega
    | atLeastOnce =>
      have hsame : (SubscriberQueue.attempt e now baseDelay).message = e.message := rfl
      simp only [hq] at heq
      simp only [Contents.dequeue, hc, hq, heq] at hafter
      simp only [messages, act, heq, hafter, Contents.messages, hc, List.map_append,
        List.count_append, List.map_cons, List.count_cons, hsame]
      omega

/-- At most one entry is in flight under a tag. -/
theorem acked_perm {q : SubscriberQueue} (hinv : q.Inv n) (tag : Nat) :
    (q.contents.inflight.filter (·.tag = tag)).Perm (q.inflight.lookup tag).toList := by
  have hnd : q.contents.inflight.Nodup := .of_map QueueEntry.tag
    (SubscriberQueue.nodup_tags fun t e ht => (hinv.inflight t e ht).1)
  have hopt : (q.inflight.lookup tag).toList.Nodup := by
    cases q.inflight.lookup tag with
    | none => exact .nil
    | some e => exact List.nodup_singleton e
  refine (List.perm_ext_iff_of_nodup (hnd.filter _) hopt).mpr fun e => ?_
  rw [List.mem_filter, decide_eq_true_iff, Option.mem_toList]
  exact (hinv.shows.inflight tag e).symm

theorem ack_perm (hinv : h.queue.Inv n) (tag : Nat) :
    h.messages.Perm (h.act (.ack tag)).messages := by
  refine List.perm_iff_count.mpr fun m => ?_
  have hcontents := (h.queue.contents.ack_perm tag).count_eq m
  rw [← SubscriberQueue.contents_ack hinv] at hcontents
  have hacked := ((acked_perm hinv tag).map QueueEntry.message).count_eq m
  simp only [messages, act, List.map_append, List.count_append] at hcontents ⊢
  omega

theorem maintenanceTick_perm (hinv : h.queue.Inv n) (now maxRetries : Nat) :
    h.messages.Perm (h.act (.maintenanceTick now maxRetries)).messages := by
  refine List.perm_iff_count.mpr fun m => ?_
  obtain ⟨-, hcontents, hdropped⟩ := hinv.sweep now maxRetries
  have hscan := (h.queue.contents.scan_perm now maxRetries).count_eq m
  have hcount := ((hdropped.map Prod.fst).map QueueEntry.message).count_eq m
  rw [← hcontents] at hscan
  simp only [messages, act, List.map_append, List.count_append] at hscan hcount ⊢
  omega

end Act

/-- What arrived is what is stored and what has left; tags count arrivals. -/
structure Conserved (h : History) (n : Nat) : Prop where
  inv : h.queue.Inv n
  perm : h.enqueued.Perm h.messages
  tag_le : ∀ e ∈ h.enqueued, e.tag ≤ n
  nodup : (h.enqueued.map QueueEntry.tag).Nodup
  length : h.enqueued.length = n

theorem Conserved.new (defaultQos : QoSLevel) (capacity : Nat) :
    (new defaultQos capacity).Conserved 0 :=
  ⟨.new defaultQos capacity, .nil, nofun, .nil, rfl⟩

theorem Conserved.act (hc : h.Conserved n) (a : QueueAction)
    (hn : n + SubscriberQueue.enqueues [a] < 2 ^ 64) :
    (h.act a).Conserved (n + SubscriberQueue.enqueues [a]) := by
  have hinv := hc.inv.act a hn
  rw [← queue_act] at hinv
  cases a with
  | enqueue now payload qos walId ttl =>
    have htag : (h.queue.arrival now payload qos walId ttl).tag = n + 1 := hc.inv.nextTag_eq hn
    refine
      { inv := hinv, perm := (hc.perm.append_right _).trans (enqueue_perm hc.inv hn ..)
        tag_le := ?_, nodup := ?_, length := ?_ }
    · exact forall_mem_concat (fun e he => Nat.le_succ_of_le (hc.tag_le e he)) (Nat.le_of_eq htag)
    · show ((h.enqueued ++ [_]).map QueueEntry.tag).Nodup
      rw [List.map_append, List.map_singleton, htag, ← List.concat_eq_append]
      refine hc.nodup.concat fun hmem => ?_
      obtain ⟨e, he, heq⟩ := List.mem_map.mp hmem
      have hle := hc.tag_le e he
      omega
    · show (h.enqueued ++ [_]).length = n + 1
      rw [List.length_append, hc.length]
      rfl
  | dequeue now baseDelay =>
    have hsame : (h.act (.dequeue now baseDelay)).enqueued = h.enqueued := by
      simp only [History.act]
      split <;> rfl
    refine ⟨hinv, ?_, ?_, ?_, ?_⟩ <;> rw [hsame]
    · exact hc.perm.trans (dequeue_perm hc.inv now baseDelay)
    · exact hc.tag_le
    · exact hc.nodup
    · exact hc.length
  | ack tag => exact ⟨hinv, hc.perm.trans (ack_perm hc.inv tag), hc.tag_le, hc.nodup, hc.length⟩
  | maintenanceTick now maxRetries =>
    exact ⟨hinv, hc.perm.trans (maintenanceTick_perm hc.inv now maxRetries), hc.tag_le, hc.nodup,
      hc.length⟩

theorem Conserved.run (hc : h.Conserved n) (acts : List QueueAction)
    (hn : n + SubscriberQueue.enqueues acts < 2 ^ 64) :
    (acts.foldl History.act h).Conserved (n + SubscriberQueue.enqueues acts) := by
  induction acts generalizing h n with
  | nil => exact hc
  | cons a acts ih =>
    rw [SubscriberQueue.add_enqueues_cons] at hn ⊢
    exact ih (hc.act a (by omega)) hn

/-! ## The six places -/

inductive Place where
  | pendingEntries
  | inflight
  | handedOut
  | acked
  | dropped
  | evicted
  deriving DecidableEq

def Place.all : List Place := [.pendingEntries, .inflight, .handedOut, .acked, .dropped, .evicted]

theorem Place.mem_all (p : Place) : p ∈ Place.all := by
  cases p <;> decide

def entriesAt (h : History) : Place → List QueueEntry
  | .pendingEntries => h.queue.pendingEntries.entries.map Sigma.snd
  | .inflight => h.queue.inflight.entries.map Sigma.snd
  | .handedOut => h.handedOut
  | .acked => h.acked
  | .dropped => h.dropped
  | .evicted => h.evicted

def messagesAt (h : History) (p : Place) : List QueueEntry :=
  (h.entriesAt p).map QueueEntry.message

theorem mem_messagesAt {p : Place} {m : QueueEntry} :
    m ∈ h.messagesAt p ↔ ∃ e ∈ h.entriesAt p, e.message = m :=
  List.mem_map

theorem Conserved.places_perm (hc : h.Conserved n) :
    h.enqueued.Perm (Place.all.flatMap h.messagesAt) := by
  refine hc.perm.trans ?_
  have hpending := hc.inv.waiting_perm.map QueueEntry.message
  simp only [messages, Contents.messages, List.map_append, List.append_assoc, Place.all,
    messagesAt, entriesAt, List.flatMap_cons, List.flatMap_nil, List.append_nil]
  exact hpending.append_right _

/-- **Every message that was ever enqueued is in exactly one place**, once, and
nothing else is anywhere. A message in `pending_entries` has its tag once in
`pending`. -/
theorem enqueued_exactly_one_place (defaultQos : QoSLevel) (capacity : Nat)
    (acts : List QueueAction) (hlt : SubscriberQueue.enqueues acts < 2 ^ 64) :
    let h := acts.foldl act (new defaultQos capacity)
    h.enqueued.length = SubscriberQueue.enqueues acts ∧
      (h.enqueued.map QueueEntry.tag).Nodup ∧
      (∀ m ∈ h.enqueued, ∃! p, ∃ e ∈ h.entriesAt p, e.message = m) ∧
      (∀ p, ((h.entriesAt p).map QueueEntry.message).Nodup) ∧
      (∀ p, ∀ e ∈ h.entriesAt p, e.message ∈ h.enqueued) ∧
      ∀ e ∈ h.entriesAt .pendingEntries, h.queue.pending.count e.tag = 1 := by
  intro h
  have hc : h.Conserved (0 + SubscriberQueue.enqueues acts) :=
    (Conserved.new defaultQos capacity).run acts (by omega)
  have hperm := hc.places_perm
  have hnd : (Place.all.flatMap h.messagesAt).Nodup :=
    hperm.nodup_iff.mp (.of_map _ hc.nodup)
  obtain ⟨hplace, hdisj⟩ := List.nodup_flatMap.mp hnd
  refine ⟨by rw [hc.length, Nat.zero_add], hc.nodup, ?_, fun p => hplace p p.mem_all, ?_, ?_⟩
  · intro m hm
    obtain ⟨p, -, hp⟩ := List.mem_flatMap.mp (hperm.mem_iff.mp hm)
    refine ⟨p, mem_messagesAt.mp hp, fun p' hp' => ?_⟩
    by_contra hne
    have : Std.Symm (Function.onFun List.Disjoint h.messagesAt) :=
      ⟨fun _ _ => List.disjoint_symm⟩
    exact hdisj.forall p'.mem_all p.mem_all hne (mem_messagesAt.mpr hp') hp
  · intro p e he
    exact hperm.mem_iff.mpr (List.mem_flatMap.mpr ⟨p, p.mem_all, List.mem_map_of_mem he⟩)
  · intro e he
    have hl := (SubscriberQueue.mem_inflight fun t e ht => (hc.inv.pendingEntries t e ht).1).mp he
    exact List.count_eq_one_of_mem hc.inv.pending_nodup (hc.inv.pendingEntries _ e hl).2

/-- Four messages of which one is evicted, one acked and one dropped. -/
theorem enqueued_exactly_one_place_full_queue :
    let acts : List QueueAction := [.enqueue 0 [1] .atLeastOnce none none,
      .enqueue 0 [2] .atLeastOnce none none, .enqueue 0 [3] .atLeastOnce none none,
      .dequeue 0 10, .ack 2, .enqueue 0 [4] .atLeastOnce none (some 5), .maintenanceTick 9 3]
    let h := acts.foldl act (new .atLeastOnce 2)
    (∀ m ∈ h.enqueued, ∃! p, ∃ e ∈ h.entriesAt p, e.message = m) ∧
      Place.all.map (fun p => (h.entriesAt p).map QueueEntry.tag) =
        [[3], [], [], [2], [4], [1]] := by
  intro acts h
  have hplaces := enqueued_exactly_one_place .atLeastOnce 2 acts (by decide)
  exact ⟨hplaces.2.2.1, by decide⟩

end History

end BlipMQ.Core
