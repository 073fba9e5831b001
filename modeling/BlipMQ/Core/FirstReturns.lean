import BlipMQ.Core.Deliveries

/-!
# Broker — the order of first deliveries

A queue returns messages for the first time in the order in which they were
enqueued. Retries come in between, evictions and expirations leave gaps, but
no message overtakes another one on its first delivery.
-/

namespace BlipMQ.Core

namespace SubscriberQueue

/-! ## First returns -/

/-- Whatever comes for the first time is above all that came before. -/
def FirstsAscend (tags : List Nat) : Prop :=
  ∀ before tag after, tags = before ++ tag :: after → tag ∈ before ∨ ∀ t ∈ before, t < tag

theorem FirstsAscend.concat {tags : List Nat} (h : FirstsAscend tags) {tag : Nat}
    (htag : tag ∈ tags ∨ ∀ t ∈ tags, t < tag) : FirstsAscend (tags ++ [tag]) := by
  intro before t after heq
  rcases List.eq_nil_or_concat after with rfl | ⟨init, last, rfl⟩
  · obtain ⟨rfl, hlast⟩ := List.append_inj' heq rfl
    cases hlast
    exact htag
  · refine h before t init ?_
    rw [List.concat_eq_append, ← List.cons_append, ← List.append_assoc] at heq
    exact (List.append_inj' heq rfl).1

/-- Of two tags that come, the smaller one is the first to come. -/
theorem FirstsAscend.idxOf_lt {tags : List Nat} (h : FirstsAscend tags) {s t : Nat} (hst : s < t)
    (hs : s ∈ tags) : tags.idxOf s < tags.idxOf t := by
  obtain ⟨before, after, hsplit, hnot⟩ := List.eq_append_cons_of_mem hs
  by_contra hle
  -- otherwise `t` has come before `s` comes for the first time
  have hidx : tags.idxOf s = before.length := by
    rw [hsplit, List.idxOf_append_of_notMem hnot, List.idxOf_cons_self, Nat.add_zero]
  have hbefore : t ∈ before := by
    by_contra htnot
    rw [hsplit, List.idxOf_append_of_notMem htnot] at hle
    rw [hsplit] at hidx
    have hne : ¬ s = t := by omega
    rw [List.idxOf_cons_ne _ hne] at hle
    omega
  rcases h before s after hsplit with hmem | hlt
  · exact hnot hmem
  · have := hlt t hbefore
    omega

/-- The tags of what was returned. -/
def returnedTags (returned : List (QueueEntry × Option Nat)) : List Nat :=
  returned.map fun r => r.1.tag

/-- What waits and was never returned stands in the order of arrival, behind all
that was returned. -/
structure Ordered (q : SubscriberQueue) (arrived : List QueueEntry)
    (returned : List (QueueEntry × Option Nat)) : Prop extends q.Traced arrived returned where
  seenWaiting : ∀ e ∈ q.contents.waiting, e.deliveryAttempts ≠ 0 → e.tag ∈ returnedTags returned
  seenInflight : ∀ e ∈ q.contents.inflight,
    e.deliveryAttempts ≠ 0 ∧ e.tag ∈ returnedTags returned
  ascending : ((q.contents.waiting.filter (·.deliveryAttempts = 0)).map QueueEntry.tag).Pairwise
    (· < ·)
  ahead : ∀ t ∈ returnedTags returned, ∀ e ∈ q.contents.waiting, e.deliveryAttempts = 0 → t < e.tag
  firsts : FirstsAscend (returnedTags returned)

theorem Ordered.new (defaultQos : QoSLevel) (capacity : Nat) :
    (new defaultQos capacity).Ordered [] [] where
  toTraced := .new defaultQos capacity
  seenWaiting := List.forall_mem_nil _
  seenInflight := List.forall_mem_nil _
  ascending := .nil
  ahead := List.forall_mem_nil _
  firsts := by
    intro before tag after heq
    cases before <;> cases heq

section Ordered

variable {q : SubscriberQueue} {arrived : List QueueEntry}
  {returned : List (QueueEntry × Option Nat)}

theorem Traced.returnedTags_le (h : q.Traced arrived returned) {t : Nat}
    (ht : t ∈ returnedTags returned) : t ≤ arrived.length := by
  obtain ⟨r, hr, rfl⟩ := List.mem_map.mp ht
  exact h.returned_le hr

theorem Ordered.enqueue (h : q.Ordered arrived returned) (hn : arrived.length + 1 < 2 ^ 64)
    (now : Nat) (payload : Bytes) (qos : QoSLevel) (walId ttl : Option Nat) :
    (q.enqueue now payload qos walId ttl).Ordered
      (arrived ++ [q.arrival now payload qos walId ttl]) returned := by
  have hcontents := contents_enqueue h.inv hn now payload qos walId ttl
  have htag : (q.arrival now payload qos walId ttl).tag = arrived.length + 1 := h.nextTag hn
  refine ⟨h.toTraced.enqueue hn now payload qos walId ttl, ?_, ?_, ?_, ?_, h.firsts⟩ <;>
    rw [hcontents]
  · refine forall_mem_concat ?_ ?_
    · exact fun e he => h.seenWaiting e (List.mem_of_mem_drop he)
    · exact fun hne => absurd rfl hne
  · exact h.seenInflight
  · have hstay : ((q.contents.waiting.drop (q.contents.evictions q.capacity)).filter
        (·.deliveryAttempts = 0)).Sublist (q.contents.waiting.filter (·.deliveryAttempts = 0)) :=
      (List.drop_sublist _ _).filter _
    change (((_ ++ [q.arrival now payload qos walId ttl]).filter _).map _).Pairwise _
    rw [List.filter_append, List.map_append, List.pairwise_append]
    refine ⟨h.ascending.sublist (hstay.map _), List.pairwise_singleton .., ?_⟩
    intro t ht t' ht'
    obtain ⟨e, he, rfl⟩ := List.mem_map.mp ht
    obtain ⟨e', he', rfl⟩ := List.mem_map.mp ht'
    rw [List.mem_singleton.mp (List.mem_filter.mp he').1, htag]
    exact Nat.lt_succ_of_le (h.waiting_le (List.mem_of_mem_drop (List.mem_filter.mp he).1))
  · intro t ht
    refine forall_mem_concat ?_ ?_
    · exact fun e he => h.ahead t ht e (List.mem_of_mem_drop he)
    · intro _
      rw [htag]
      exact Nat.lt_succ_of_le (h.returnedTags_le ht)

/-- The first entry that waits is returned: if for the first time, its tag is above
all returned so far. -/
theorem Ordered.return_head (h : q.Ordered arrived returned) {e : QueueEntry}
    {rest : List QueueEntry} (hwaiting : q.contents.waiting = e :: rest)
    {r : QueueEntry × Option Nat} (hr : r.1.tag = e.tag) :
    (∀ e' ∈ rest, e'.deliveryAttempts ≠ 0 → e'.tag ∈ returnedTags (returned ++ [r])) ∧
    (∀ e' ∈ q.contents.inflight,
      e'.deliveryAttempts ≠ 0 ∧ e'.tag ∈ returnedTags (returned ++ [r])) ∧
    ((rest.filter (·.deliveryAttempts = 0)).map QueueEntry.tag).Pairwise (· < ·) ∧
    (∀ t ∈ returnedTags (returned ++ [r]), ∀ e' ∈ rest, e'.deliveryAttempts = 0 → t < e'.tag) ∧
    FirstsAscend (returnedTags (returned ++ [r])) := by
  have htags : returnedTags (returned ++ [r]) = returnedTags returned ++ [e.tag] := by
    rw [returnedTags, List.map_append, List.map_singleton, hr]
    rfl
  have hhead : e ∈ q.contents.waiting := by
    rw [hwaiting]
    exact List.mem_cons_self
  have hrest : ∀ e' ∈ rest, e' ∈ q.contents.waiting := by
    intro e' he'
    rw [hwaiting]
    exact List.mem_cons_of_mem _ he'
  have hascending := h.ascending
  rw [hwaiting] at hascending
  rw [htags]
  refine ⟨?_, ?_, ?_, ?_, h.firsts.concat ?_⟩
  · exact fun e' he' hne => List.mem_append_left _ (h.seenWaiting e' (hrest e' he') hne)
  · exact fun e' he' =>
      ⟨(h.seenInflight e' he').1, List.mem_append_left _ (h.seenInflight e' he').2⟩
  · exact hascending.sublist (((List.sublist_cons_self e rest).filter _).map _)
  · refine forall_mem_concat ?_ ?_
    · exact fun t ht e' he' => h.ahead t ht e' (hrest e' he')
    · intro e' he' hzero
      by_cases hfirst : e.deliveryAttempts = 0
      · have hkept : (e :: rest).filter (·.deliveryAttempts = 0) =
            e :: rest.filter (·.deliveryAttempts = 0) :=
          List.filter_cons_of_pos (decide_eq_true hfirst)
        rw [hkept, List.map_cons, List.pairwise_cons] at hascending
        exact hascending.1 _
          (List.mem_map_of_mem (List.mem_filter.mpr ⟨he', decide_eq_true hzero⟩))
      · exact h.ahead _ (h.seenWaiting e hhead hfirst) e' (hrest e' he') hzero
  · by_cases hfirst : e.deliveryAttempts = 0
    · exact .inr fun t ht => h.ahead t ht e hhead hfirst
    · exact .inl (h.seenWaiting e hhead hfirst)

theorem Ordered.dequeue (h : q.Ordered arrived returned) (now baseDelay : Nat) :
    (q.dequeue now baseDelay).1.Ordered arrived
      (returned ++ q.returns (.dequeue now baseDelay)) := by
  have htraced := h.toTraced.dequeue now baseDelay
  rcases h.inv.dequeue_contents now baseDelay with
    ⟨-, hcontents, hreturns⟩ | ⟨e, rest, hwaiting, ⟨-, hcontents, hreturns⟩ |
      ⟨-, hcontents, hreturns⟩⟩
  · rw [hreturns, List.append_nil] at htraced ⊢
    refine ⟨htraced, ?_, ?_, ?_, ?_, h.firsts⟩ <;> rw [hcontents]
    · exact h.seenWaiting
    · exact h.seenInflight
    · exact h.ascending
    · exact h.ahead
  · obtain ⟨hrest, hflight, hascending, hahead, hfirsts⟩ :=
      h.return_head hwaiting (r := (e, none)) rfl
    rw [hreturns] at htraced ⊢
    refine ⟨htraced, ?_, ?_, ?_, ?_, hfirsts⟩ <;> rw [hcontents]
    · exact hrest
    · exact hflight
    · exact hascending
    · exact hahead
  · obtain ⟨hrest, hflight, hascending, hahead, hfirsts⟩ :=
      h.return_head hwaiting (r := (attempt e now baseDelay, some e.tag)) rfl
    rw [hreturns] at htraced ⊢
    refine ⟨htraced, ?_, ?_, ?_, ?_, hfirsts⟩ <;> rw [hcontents]
    · exact hrest
    · refine List.forall_mem_cons.mpr ⟨⟨?_, ?_⟩, hflight⟩
      · change min (e.deliveryAttempts + 1) (2 ^ 32 - 1) ≠ 0
        omega
      · rw [returnedTags, List.map_append]
        exact List.mem_append_right _ (List.mem_singleton_self _)
    · exact hascending
    · exact hahead

theorem Ordered.ack (h : q.Ordered arrived returned) (tag : Nat) :
    (q.ack tag).1.Ordered arrived returned := by
  refine ⟨h.toTraced.ack tag, ?_, ?_, ?_, ?_, h.firsts⟩ <;> rw [contents_ack h.inv]
  · exact h.seenWaiting
  · exact fun e he => h.seenInflight e (List.mem_filter.mp he).1
  · exact h.ascending
  · exact h.ahead

/-- What comes back from flight has been returned, so the tick leaves the order of
the rest alone. -/
theorem Ordered.maintenanceTick (h : q.Ordered arrived returned) (now maxRetries : Nat) :
    (q.maintenanceTick now maxRetries).1.Ordered arrived returned := by
  have hcontents : (q.maintenanceTick now maxRetries).1.contents = _ :=
    (h.inv.sweep now maxRetries).2.1
  have hzero : ∀ e ∈ (q.contents.scan now maxRetries).1.waiting, e.deliveryAttempts = 0 →
      e ∈ q.contents.waiting := by
    intro e he hattempts
    rcases Contents.mem_scan_waiting he with hold | ⟨e', he', -, rfl⟩
    · exact hold
    · exact absurd hattempts (h.seenInflight e' he').1
  refine ⟨h.toTraced.maintenanceTick now maxRetries, ?_, ?_, ?_, ?_, h.firsts⟩ <;> rw [hcontents]
  · intro e he hne
    rcases Contents.mem_scan_waiting he with hold | ⟨e', he', -, rfl⟩
    · exact h.seenWaiting e hold hne
    · exact (h.seenInflight e' he').2
  · exact fun e he => h.seenInflight e (Contents.mem_scan_inflight he)
  · obtain ⟨back, hwaiting, hback⟩ := q.contents.scan_waiting now maxRetries
    have hnone : back.filter (·.deliveryAttempts = 0) = [] := by
      refine List.filter_eq_nil_iff.mpr fun e he hattempts => ?_
      obtain ⟨e', he', -, rfl⟩ := hback e he
      exact (h.seenInflight e' he').1 (of_decide_eq_true hattempts)
    rw [hwaiting, List.filter_append, hnone, List.append_nil]
    exact h.ascending.sublist (((List.filter_sublist ..).filter _).map _)
  · exact fun t ht e he hattempts => h.ahead t ht e (hzero e he hattempts) hattempts

theorem Ordered.rule : HistoryRule Ordered fun _ => True where
  enqueue h hn now payload qos walId ttl := h.enqueue hn now payload qos walId ttl
  dequeue h now baseDelay := h.dequeue now baseDelay
  ack h tag := h.ack tag
  maintenanceTick h now maxRetries _ := h.maintenanceTick now maxRetries

end Ordered

/-- Messages and their tags stand at the same places. -/
theorem Traced.idxOf_message {q : SubscriberQueue} {arrived : List QueueEntry}
    {returned : List (QueueEntry × Option Nat)} (h : q.Traced arrived returned) {m : QueueEntry}
    (hm : m ∈ arrived) :
    (returned.map fun r => r.1.message).idxOf m = (returnedTags returned).idxOf m.tag := by
  have hsame : ∀ r ∈ returned, r.1.message = m ↔ r.1.tag = m.tag := by
    intro r hr
    constructor
    · rintro rfl
      rfl
    · exact fun htag => h.eq_of_tag (h.origin r hr).1 hm htag
  clear h
  induction returned with
  | nil => rfl
  | cons r returned ih =>
    obtain ⟨hhead, hrest⟩ := List.forall_mem_cons.mp hsame
    have htail := ih hrest
    unfold returnedTags at htail ⊢
    rw [List.map_cons, List.map_cons, List.idxOf_cons, List.idxOf_cons, htail]
    simp only [beq_iff_eq, hhead, cond_eq_ite]

/-- **First deliveries are in publish order.** If `a` was enqueued before `b` and
both are returned, then the first return of `a` comes before that of `b`. -/
theorem first_returns_in_order (defaultQos : QoSLevel) (capacity : Nat) (acts : List QueueAction)
    (hlt : enqueues acts < 2 ^ 64) (before mid after : List QueueEntry) (a b : QueueEntry) :
    let q := new defaultQos capacity
    let shown := (q.runReturns acts).map fun r => r.1.message
    q.runArrivals acts = before ++ a :: (mid ++ b :: after) → a ∈ shown → b ∈ shown →
      shown.idxOf a < shown.idxOf b := by
  intro q shown harrived ha hb
  have h : (acts.foldl act q).Ordered (q.runArrivals acts) (q.runReturns acts) :=
    Ordered.rule.run (Ordered.new defaultQos capacity) acts (fun _ _ _ => trivial) (by simpa)
  have hmem : a ∈ q.runArrivals acts ∧ b ∈ q.runArrivals acts := by
    rw [harrived]
    simp
  have hlt : a.tag < b.tag := by
    have hascending : ((q.runArrivals acts).map QueueEntry.tag).Pairwise (· < ·) := by
      rw [h.tags]
      exact List.pairwise_lt_range'
    rw [harrived, List.map_append, List.map_cons, List.pairwise_append, List.pairwise_cons]
      at hascending
    exact hascending.2.1.1 b.tag (by simp)
  rw [h.idxOf_message hmem.1, h.idxOf_message hmem.2]
  refine h.firsts.idxOf_lt hlt ?_
  obtain ⟨r, hr, hmessage⟩ := List.mem_map.mp ha
  exact List.mem_map.mpr ⟨r, hr, by rw [← hmessage]; rfl⟩

/-- The first message is retried after the second was returned; the third is evicted
by the fourth. -/
theorem first_returns_in_order_retry :
    let acts : List QueueAction := [.enqueue 0 [1] .atLeastOnce none none,
      .enqueue 0 [2] .atMostOnce none none, .dequeue 0 10, .dequeue 0 10,
      .enqueue 1 [3] .atMostOnce none none, .enqueue 1 [4] .atMostOnce none none,
      .maintenanceTick 10 3, .dequeue 10 10, .dequeue 10 10]
    let q := new .atLeastOnce 2
    let shown := (q.runReturns acts).map fun r => r.1.message
    shown.map QueueEntry.payload = [[1], [2], [4], [1]] ∧
      shown.idxOf ⟨1, [1], .atLeastOnce, none, 0, none, 0, 0⟩ <
        shown.idxOf ⟨4, [4], .atMostOnce, none, 1, none, 0, 1⟩ := by
  intro acts q shown
  refine ⟨by decide, first_returns_in_order .atLeastOnce 2 acts (by decide) []
    [⟨2, [2], .atMostOnce, none, 0, none, 0, 0⟩, ⟨3, [3], .atMostOnce, none, 1, none, 0, 1⟩] []
    _ _ ?_ ?_ ?_⟩
  · decide
  · decide
  · decide

end SubscriberQueue

end BlipMQ.Core
