import BlipMQ.Core.Conservation
import BlipMQ.Lib.Machine

/-!
# Broker — how often a queue hands out a message

A run of a polled queue shows two sequences: the messages that arrive and the
entries `dequeue` returns. A message is known by its tag, which counts the
arrivals. One invariant ties what is stored to what has been returned: the
attempts of a stored message count its returns.
-/

namespace BlipMQ.Core

namespace SubscriberQueue

/-! ## What a run shows -/

/-- The message an operation takes in. -/
def arrivals (q : SubscriberQueue) : QueueAction → List QueueEntry
  | .enqueue now payload messageQos walId ttl => [q.arrival now payload messageQos walId ttl]
  | .dequeue _ _ | .ack _ | .maintenanceTick _ _ => []

/-- What `dequeue` returns, the entry and the tag to ack it with. -/
def returns (q : SubscriberQueue) : QueueAction → List (QueueEntry × Option Nat)
  | .dequeue now baseDelay => (q.dequeue now baseDelay).2.toList
  | .enqueue _ _ _ _ _ | .ack _ | .maintenanceTick _ _ => []

def runArrivals (q : SubscriberQueue) (acts : List QueueAction) : List QueueEntry :=
  emitted act arrivals q acts

def runReturns (q : SubscriberQueue) (acts : List QueueAction) :
    List (QueueEntry × Option Nat) :=
  emitted act returns q acts

/-- How often a tag was returned. -/
def timesReturned (returned : List (QueueEntry × Option Nat)) (tag : Nat) : Nat :=
  returned.countP (·.1.tag = tag)

/-- The label an entry is returned with: its tag if it has to be acked. -/
def label (e : QueueEntry) : Option Nat :=
  match e.qos with
  | .atMostOnce => none
  | .atLeastOnce => some e.tag

theorem length_arrivals (q : SubscriberQueue) (a : QueueAction) :
    (q.arrivals a).length = enqueues [a] := by
  cases a <;> rfl

theorem length_runArrivals (q : SubscriberQueue) (acts : List QueueAction) :
    (q.runArrivals acts).length = enqueues acts := by
  induction acts generalizing q with
  | nil => rfl
  | cons a acts ih =>
    have hrest := ih (q.act a)
    rw [runArrivals] at hrest ⊢
    rw [emitted, List.length_append, length_arrivals, hrest, ← enqueues_append]
    rfl

/-! ## What the operations do to the contents -/

section Contents

variable {q : SubscriberQueue} {n : Nat}

/-- `dequeue` finds nothing, or hands out the first entry that waits. -/
theorem Inv.dequeue_contents (h : q.Inv n) (now baseDelay : Nat) :
    (q.contents.waiting = [] ∧ (q.dequeue now baseDelay).1.contents = q.contents ∧
      q.returns (.dequeue now baseDelay) = []) ∨
    ∃ e rest, q.contents.waiting = e :: rest ∧
      ((e.qos = .atMostOnce ∧
        (q.dequeue now baseDelay).1.contents = ⟨rest, q.contents.inflight⟩ ∧
        q.returns (.dequeue now baseDelay) = [(e, none)]) ∨
      (e.qos = .atLeastOnce ∧
        (q.dequeue now baseDelay).1.contents =
          ⟨rest, attempt e now baseDelay :: q.contents.inflight⟩ ∧
        q.returns (.dequeue now baseDelay) = [(attempt e now baseDelay, some e.tag)])) := by
  have hcontents := (contents_dequeue h now baseDelay).1
  unfold Contents.dequeue at hcontents
  rcases q.dequeue_cases now baseDelay with
    ⟨hnil, heq⟩ | ⟨dead, t, rest, e, -, -, -, hwaiting, heq⟩
  · have hw : q.contents.waiting = [] := hnil
    rw [hw] at hcontents
    exact .inl ⟨hw, hcontents, by rw [returns, heq]; rfl⟩
  · have hw : q.contents.waiting = e :: live q.pendingEntries rest := hwaiting
    rw [hw] at hcontents
    refine .inr ⟨e, _, hw, ?_⟩
    cases hqos : e.qos with
    | atMostOnce =>
      simp only [hqos] at hcontents heq
      exact .inl ⟨rfl, hcontents, by rw [returns, heq]; rfl⟩
    | atLeastOnce =>
      simp only [hqos] at hcontents heq
      exact .inr ⟨rfl, hcontents, by rw [returns, heq]; rfl⟩

end Contents

end SubscriberQueue

namespace Contents

variable {c : Contents} {now maxRetries : Nat} {e : QueueEntry}

variable (c now maxRetries) in
/-- What waits after the scan: what waited and is alive, and then what comes back from
flight. -/
theorem scan_waiting : ∃ back,
    (c.scan now maxRetries).1.waiting = c.waiting.filter (!·.expired now) ++ back ∧
    ∀ e ∈ back, ∃ e' ∈ c.inflight, e'.deliveryAttempts < maxRetries ∧ e = e'.retryAt now := by
  refine ⟨_, rfl, fun e he => ?_⟩
  obtain ⟨e', he', rfl⟩ := List.mem_map.mp he
  obtain ⟨hdue, hlt⟩ := List.mem_filter.mp ((List.mem_insertionSort _).mp he')
  exact ⟨e', (List.mem_filter.mp (List.mem_filter.mp hdue).1).1, of_decide_eq_true hlt, rfl⟩

theorem mem_scan_waiting (h : e ∈ (c.scan now maxRetries).1.waiting) :
    e ∈ c.waiting ∨ ∃ e' ∈ c.inflight, e'.deliveryAttempts < maxRetries ∧ e = e'.retryAt now := by
  obtain ⟨back, hwaiting, hback⟩ := c.scan_waiting now maxRetries
  rw [hwaiting] at h
  rcases List.mem_append.mp h with hold | hnew
  · exact .inl (List.mem_filter.mp hold).1
  · exact .inr (hback e hnew)

theorem mem_scan_inflight (h : e ∈ (c.scan now maxRetries).1.inflight) : e ∈ c.inflight :=
  (List.mem_filter.mp (List.mem_filter.mp h).1).1

end Contents

namespace SubscriberQueue

/-! ## Runs with their history -/

/-- What every operation preserves, of the queue, of what arrived and of what was
returned, with ticks for `retries` alone. -/
structure HistoryRule
    (P : SubscriberQueue → List QueueEntry → List (QueueEntry × Option Nat) → Prop)
    (retries : Nat → Prop) : Prop where
  enqueue : ∀ {q arrived returned}, P q arrived returned → arrived.length + 1 < 2 ^ 64 →
    ∀ now payload qos walId ttl, P (q.enqueue now payload qos walId ttl)
      (arrived ++ [q.arrival now payload qos walId ttl]) returned
  dequeue : ∀ {q arrived returned}, P q arrived returned → ∀ now baseDelay,
    P (q.dequeue now baseDelay).1 arrived (returned ++ q.returns (.dequeue now baseDelay))
  ack : ∀ {q arrived returned}, P q arrived returned → ∀ tag, P (q.ack tag).1 arrived returned
  maintenanceTick : ∀ {q arrived returned}, P q arrived returned → ∀ now maxRetries,
    retries maxRetries → P (q.maintenanceTick now maxRetries).1 arrived returned

section Rule

variable {P : SubscriberQueue → List QueueEntry → List (QueueEntry × Option Nat) → Prop}
  {retries : Nat → Prop} {q : SubscriberQueue} {arrived : List QueueEntry}
  {returned : List (QueueEntry × Option Nat)}

theorem HistoryRule.act (hP : HistoryRule P retries) (h : P q arrived returned) (a : QueueAction)
    (hretries : ∀ now maxRetries, a = .maintenanceTick now maxRetries → retries maxRetries)
    (hn : arrived.length + enqueues [a] < 2 ^ 64) :
    P (q.act a) (arrived ++ q.arrivals a) (returned ++ q.returns a) := by
  cases a with
  | enqueue now payload qos walId ttl =>
    rw [returns, List.append_nil]
    exact hP.enqueue h hn now payload qos walId ttl
  | dequeue now baseDelay =>
    rw [arrivals, List.append_nil]
    exact hP.dequeue h now baseDelay
  | ack tag =>
    rw [arrivals, returns, List.append_nil, List.append_nil]
    exact hP.ack h tag
  | maintenanceTick now maxRetries =>
    rw [arrivals, returns, List.append_nil, List.append_nil]
    exact hP.maintenanceTick h now maxRetries (hretries now maxRetries rfl)

/-- **What every operation preserves holds after every run** of fewer than `2 ^ 64`
arrivals. -/
theorem HistoryRule.run (hP : HistoryRule P retries) (h : P q arrived returned)
    (acts : List QueueAction)
    (hretries : ∀ now maxRetries, .maintenanceTick now maxRetries ∈ acts → retries maxRetries)
    (hn : arrived.length + enqueues acts < 2 ^ 64) :
    P (acts.foldl SubscriberQueue.act q) (arrived ++ q.runArrivals acts)
      (returned ++ q.runReturns acts) := by
  induction acts generalizing q arrived returned with
  | nil => simpa [runArrivals, runReturns, emitted] using h
  | cons a acts ih =>
    rw [add_enqueues_cons] at hn
    have hlen := length_arrivals q a
    have hstep := hP.act h a (fun now maxRetries ha => hretries now maxRetries (by simp [ha]))
      (by omega)
    have hrest := ih hstep (fun now maxRetries ha => hretries now maxRetries (by simp [ha]))
      (by rw [List.length_append]; omega)
    rw [List.append_assoc, List.append_assoc] at hrest
    exact hrest

end Rule

/-- A queue beside its history. What is stored and what was returned are messages
that arrived; the tags of those count the arrivals. -/
structure Traced (q : SubscriberQueue) (arrived : List QueueEntry)
    (returned : List (QueueEntry × Option Nat)) : Prop where
  inv : q.Inv arrived.length
  tags : arrived.map QueueEntry.tag = List.range' 1 arrived.length
  waiting : ∀ e ∈ q.contents.waiting, e.message ∈ arrived
  inflight : ∀ e ∈ q.contents.inflight, e.message ∈ arrived ∧ e.qos = .atLeastOnce
  origin : ∀ r ∈ returned, r.1.message ∈ arrived ∧ r.2 = label r.1

theorem Traced.new (defaultQos : QoSLevel) (capacity : Nat) :
    (new defaultQos capacity).Traced [] [] where
  inv := .new defaultQos capacity
  tags := rfl
  waiting := List.forall_mem_nil _
  inflight := List.forall_mem_nil _
  origin := List.forall_mem_nil _

section Traced

variable {q : SubscriberQueue} {arrived : List QueueEntry}
  {returned : List (QueueEntry × Option Nat)}

theorem Traced.tag_le (h : q.Traced arrived returned) {m : QueueEntry} (hm : m ∈ arrived) :
    m.tag ≤ arrived.length := by
  have hmem := List.mem_map_of_mem (f := QueueEntry.tag) hm
  rw [h.tags, List.mem_range'_1] at hmem
  omega

/-- A message is known by its tag. -/
theorem Traced.eq_of_tag (h : q.Traced arrived returned) {m m' : QueueEntry} (hm : m ∈ arrived)
    (hm' : m' ∈ arrived) (htag : m.tag = m'.tag) : m = m' := by
  have hnodup : (arrived.map QueueEntry.tag).Nodup := by
    rw [h.tags]
    exact List.nodup_range'
  exact List.inj_on_of_nodup_map hnodup hm hm' htag

theorem Traced.returned_le (h : q.Traced arrived returned) {r : QueueEntry × Option Nat}
    (hr : r ∈ returned) : r.1.tag ≤ arrived.length :=
  h.tag_le (m := r.1.message) (h.origin r hr).1

variable {e : QueueEntry}

theorem Traced.waiting_le (h : q.Traced arrived returned) (he : e ∈ q.contents.waiting) :
    e.tag ≤ arrived.length :=
  h.tag_le (m := e.message) (h.waiting e he)

theorem Traced.head_waiting (h : q.Traced arrived returned) {rest : List QueueEntry}
    (hwaiting : q.contents.waiting = e :: rest) :
    e.message ∈ arrived ∧ ∀ e' ∈ rest, e'.message ∈ arrived := by
  have hall := h.waiting
  rw [hwaiting] at hall
  exact List.forall_mem_cons.mp hall

/-- The tag of the next arrival. -/
theorem Traced.nextTag (h : q.Traced arrived returned) (hn : arrived.length + 1 < 2 ^ 64) :
    q.nextTag = arrived.length + 1 :=
  h.inv.nextTag_eq hn

theorem Traced.enqueue (h : q.Traced arrived returned) (hn : arrived.length + 1 < 2 ^ 64)
    (now : Nat) (payload : Bytes) (qos : QoSLevel) (walId ttl : Option Nat) :
    (q.enqueue now payload qos walId ttl).Traced
      (arrived ++ [q.arrival now payload qos walId ttl]) returned := by
  have hold : ∀ {m}, m ∈ arrived → m ∈ arrived ++ [q.arrival now payload qos walId ttl] :=
    fun hm => List.mem_append_left _ hm
  have hcontents := contents_enqueue h.inv hn now payload qos walId ttl
  refine ⟨?_, ?_, ?_, ?_, fun r hr => ⟨hold (h.origin r hr).1, (h.origin r hr).2⟩⟩
  · rw [List.length_append]
    exact h.inv.enqueue hn now payload qos walId ttl
  · have htag : (q.arrival now payload qos walId ttl).tag = 1 + 1 * arrived.length :=
      (h.nextTag hn).trans (by omega)
    rw [List.map_append, h.tags, List.length_append, List.length_singleton, List.range'_concat,
      List.map_singleton, htag]
  · intro e he
    rw [hcontents] at he
    exact forall_mem_concat (fun e he => hold (h.waiting e (List.mem_of_mem_drop he)))
      (List.mem_append_right _ (List.mem_singleton_self _)) e he
  · intro e he
    rw [hcontents] at he
    exact ⟨hold (h.inflight e he).1, (h.inflight e he).2⟩

theorem Traced.dequeue (h : q.Traced arrived returned) (now baseDelay : Nat) :
    (q.dequeue now baseDelay).1.Traced arrived
      (returned ++ q.returns (.dequeue now baseDelay)) := by
  have hinv := h.inv.dequeue now baseDelay
  rcases h.inv.dequeue_contents now baseDelay with
    ⟨-, hcontents, hreturns⟩ | ⟨e, rest, hwaiting, ⟨hqos, hcontents, hreturns⟩ |
      ⟨hqos, hcontents, hreturns⟩⟩
  · rw [hreturns, List.append_nil]
    refine ⟨hinv, h.tags, ?_, ?_, h.origin⟩ <;> rw [hcontents]
    · exact h.waiting
    · exact h.inflight
  · obtain ⟨hhead, hrest⟩ := h.head_waiting hwaiting
    rw [hreturns]
    refine ⟨hinv, h.tags, by rw [hcontents]; exact hrest, by rw [hcontents]; exact h.inflight, ?_⟩
    exact forall_mem_concat h.origin ⟨hhead, by rw [label, hqos]⟩
  · obtain ⟨hhead, hrest⟩ := h.head_waiting hwaiting
    have hlabel : label (attempt e now baseDelay) = some e.tag := by
      rw [label, show (attempt e now baseDelay).qos = .atLeastOnce from hqos]
      rfl
    rw [hreturns]
    refine ⟨hinv, h.tags, by rw [hcontents]; exact hrest, ?_, ?_⟩
    · rw [hcontents]
      exact List.forall_mem_cons.mpr ⟨⟨hhead, hqos⟩, h.inflight⟩
    · exact forall_mem_concat h.origin ⟨hhead, hlabel.symm⟩

theorem Traced.ack (h : q.Traced arrived returned) (tag : Nat) :
    (q.ack tag).1.Traced arrived returned := by
  refine ⟨h.inv.ack tag, h.tags, ?_, ?_, h.origin⟩ <;> rw [contents_ack h.inv]
  · exact h.waiting
  · exact fun e he => h.inflight e (List.mem_filter.mp he).1

theorem Traced.maintenanceTick (h : q.Traced arrived returned) (now maxRetries : Nat) :
    (q.maintenanceTick now maxRetries).1.Traced arrived returned := by
  obtain ⟨hinv, hcontents, -⟩ := h.inv.sweep now maxRetries
  refine ⟨hinv, h.tags, ?_, ?_, h.origin⟩
  · intro e he
    change e ∈ (q.sweep now maxRetries).1.contents.waiting at he
    rw [hcontents] at he
    rcases Contents.mem_scan_waiting he with hold | ⟨e', he', -, rfl⟩
    · exact h.waiting e hold
    · exact (h.inflight e' he').1
  · intro e he
    change e ∈ (q.sweep now maxRetries).1.contents.inflight at he
    rw [hcontents] at he
    exact h.inflight e (Contents.mem_scan_inflight he)

/-- No other entry has the tag of the first that waits. -/
theorem Inv.tag_ne_head {n : Nat} (h : q.Inv n) {rest : List QueueEntry}
    (hwaiting : q.contents.waiting = e :: rest) :
    (∀ e' ∈ rest, e'.tag ≠ e.tag) ∧ ∀ e' ∈ q.contents.inflight, e'.tag ≠ e.tag := by
  have hnodup := h.tags_nodup
  rw [hwaiting, List.cons_append, List.map_cons, List.nodup_cons] at hnodup
  constructor
  · intro e' he' htag
    exact hnodup.1 (htag ▸ List.mem_map_of_mem (List.mem_append_left _ he'))
  · intro e' he' htag
    exact hnodup.1 (htag ▸ List.mem_map_of_mem (List.mem_append_right _ he'))

end Traced

/-! ## How often a message is returned -/

/-- How often a message may be returned. -/
def deliveryLimit (maxRetries : Nat) : QoSLevel → Nat
  | .atMostOnce => 1
  | .atLeastOnce => max 1 maxRetries

theorem deliveryLimit_pos (maxRetries : Nat) (qos : QoSLevel) :
    0 < deliveryLimit maxRetries qos := by
  cases qos with
  | atMostOnce => exact Nat.one_pos
  | atLeastOnce => exact Nat.le_max_left 1 maxRetries

theorem timesReturned_concat (returned : List (QueueEntry × Option Nat))
    (r : QueueEntry × Option Nat) (tag : Nat) :
    timesReturned (returned ++ [r]) tag =
      timesReturned returned tag + if r.1.tag = tag then 1 else 0 := by
  unfold timesReturned
  rw [List.countP_append, List.countP_singleton]
  simp

theorem timesReturned_eq_zero {returned : List (QueueEntry × Option Nat)} {tag n : Nat}
    (h : ∀ r ∈ returned, r.1.tag ≤ n) (hlt : n < tag) : timesReturned returned tag = 0 := by
  refine List.countP_eq_zero.mpr fun r hr htag => ?_
  have := h r hr
  have := of_decide_eq_true htag
  omega

/-- The attempts of an entry count its returns. What waits may be returned once
more, what is in flight has been returned as often as it may be, at most. -/
structure Counted (maxRetries : Nat) (q : SubscriberQueue) (arrived : List QueueEntry)
    (returned : List (QueueEntry × Option Nat)) : Prop extends q.Traced arrived returned where
  countWaiting : ∀ e ∈ q.contents.waiting, timesReturned returned e.tag = e.deliveryAttempts ∧
    e.deliveryAttempts < deliveryLimit maxRetries e.qos
  countInflight : ∀ e ∈ q.contents.inflight, timesReturned returned e.tag = e.deliveryAttempts ∧
    e.deliveryAttempts ≤ deliveryLimit maxRetries e.qos
  count : ∀ m ∈ arrived, timesReturned returned m.tag ≤ deliveryLimit maxRetries m.qos

section Counted

variable {q : SubscriberQueue} {arrived : List QueueEntry}
  {returned : List (QueueEntry × Option Nat)} {maxRetries : Nat}

theorem Counted.enqueue (h : q.Counted maxRetries arrived returned)
    (hn : arrived.length + 1 < 2 ^ 64) (now : Nat) (payload : Bytes) (qos : QoSLevel)
    (walId ttl : Option Nat) : (q.enqueue now payload qos walId ttl).Counted maxRetries
      (arrived ++ [q.arrival now payload qos walId ttl]) returned := by
  have hcontents := contents_enqueue h.inv hn now payload qos walId ttl
  have htag : (q.arrival now payload qos walId ttl).tag = arrived.length + 1 := h.nextTag hn
  have hzero : timesReturned returned (q.arrival now payload qos walId ttl).tag = 0 :=
    timesReturned_eq_zero (fun r hr => h.returned_le hr) (by omega)
  refine ⟨h.toTraced.enqueue hn now payload qos walId ttl, ?_, ?_, ?_⟩
  · rw [hcontents]
    refine forall_mem_concat ?_ ?_
    · exact fun e he => h.countWaiting e (List.mem_of_mem_drop he)
    · exact ⟨hzero, deliveryLimit_pos _ _⟩
  · rw [hcontents]
    exact h.countInflight
  · refine forall_mem_concat h.count ?_
    rw [hzero]
    exact Nat.zero_le _

/-- One more return of the first entry that waits. -/
theorem Counted.return_head (h : q.Counted maxRetries arrived returned) {e : QueueEntry}
    {rest : List QueueEntry} (hwaiting : q.contents.waiting = e :: rest)
    {r : QueueEntry × Option Nat} (hr : r.1.tag = e.tag) :
    timesReturned (returned ++ [r]) e.tag = e.deliveryAttempts + 1 ∧
    (∀ e' ∈ rest, timesReturned (returned ++ [r]) e'.tag = e'.deliveryAttempts ∧
      e'.deliveryAttempts < deliveryLimit maxRetries e'.qos) ∧
    (∀ e' ∈ q.contents.inflight, timesReturned (returned ++ [r]) e'.tag = e'.deliveryAttempts ∧
      e'.deliveryAttempts ≤ deliveryLimit maxRetries e'.qos) ∧
    ∀ m ∈ arrived, timesReturned (returned ++ [r]) m.tag ≤ deliveryLimit maxRetries m.qos := by
  have hhead : e ∈ q.contents.waiting := by
    rw [hwaiting]
    exact List.mem_cons_self
  obtain ⟨hcount, hlt⟩ := h.countWaiting e hhead
  obtain ⟨hrest, hflight⟩ := h.inv.tag_ne_head hwaiting
  have hother : ∀ tag, tag ≠ e.tag → timesReturned (returned ++ [r]) tag =
      timesReturned returned tag := by
    intro tag hne
    rw [timesReturned_concat, if_neg (by rw [hr]; exact hne.symm), Nat.add_zero]
  have hsame : timesReturned (returned ++ [r]) e.tag = e.deliveryAttempts + 1 := by
    rw [timesReturned_concat, if_pos hr, hcount]
  refine ⟨hsame, ?_, ?_, ?_⟩
  · intro e' he'
    rw [hother e'.tag (hrest e' he')]
    exact h.countWaiting e' (by rw [hwaiting]; exact List.mem_cons_of_mem _ he')
  · intro e' he'
    rw [hother e'.tag (hflight e' he')]
    exact h.countInflight e' he'
  · intro m hm
    by_cases htag : m.tag = e.tag
    · obtain rfl : m = e.message := h.eq_of_tag hm (h.waiting e hhead) htag
      rw [htag, hsame]
      exact hlt
    · rw [hother m.tag htag]
      exact h.count m hm

theorem Counted.dequeue (hmax : maxRetries < 2 ^ 32) (h : q.Counted maxRetries arrived returned)
    (now baseDelay : Nat) : (q.dequeue now baseDelay).1.Counted maxRetries arrived
      (returned ++ q.returns (.dequeue now baseDelay)) := by
  have htraced := h.toTraced.dequeue now baseDelay
  rcases h.inv.dequeue_contents now baseDelay with
    ⟨-, hcontents, hreturns⟩ | ⟨e, rest, hwaiting, ⟨-, hcontents, hreturns⟩ |
      ⟨hqos, hcontents, hreturns⟩⟩
  · rw [hreturns, List.append_nil] at htraced ⊢
    refine ⟨htraced, ?_, ?_, h.count⟩ <;> rw [hcontents]
    · exact h.countWaiting
    · exact h.countInflight
  · obtain ⟨-, hrest, hflight, hall⟩ := h.return_head hwaiting (r := (e, none)) rfl
    rw [hreturns] at htraced ⊢
    refine ⟨htraced, ?_, ?_, hall⟩ <;> rw [hcontents]
    · exact hrest
    · exact hflight
  · obtain ⟨hsame, hrest, hflight, hall⟩ :=
      h.return_head hwaiting (r := (attempt e now baseDelay, some e.tag)) rfl
    have hlt := (h.countWaiting e (by rw [hwaiting]; exact List.mem_cons_self)).2
    -- below the limit the counter of attempts does not saturate
    have hattempts : (attempt e now baseDelay).deliveryAttempts = e.deliveryAttempts + 1 := by
      rw [hqos] at hlt
      refine Nat.min_eq_left ?_
      change e.deliveryAttempts < max 1 maxRetries at hlt
      omega
    rw [hreturns] at htraced ⊢
    refine ⟨htraced, ?_, ?_, hall⟩ <;> rw [hcontents]
    · exact hrest
    · refine List.forall_mem_cons.mpr ⟨⟨?_, ?_⟩, hflight⟩
      · rw [hattempts]
        exact hsame
      · rw [hattempts]
        exact hlt

theorem Counted.ack (h : q.Counted maxRetries arrived returned) (tag : Nat) :
    (q.ack tag).1.Counted maxRetries arrived returned := by
  refine ⟨h.toTraced.ack tag, ?_, ?_, h.count⟩ <;> rw [contents_ack h.inv]
  · exact h.countWaiting
  · exact fun e he => h.countInflight e (List.mem_filter.mp he).1

theorem Counted.maintenanceTick (h : q.Counted maxRetries arrived returned) (now : Nat) :
    (q.maintenanceTick now maxRetries).1.Counted maxRetries arrived returned := by
  have hcontents : (q.maintenanceTick now maxRetries).1.contents = _ :=
    (h.inv.sweep now maxRetries).2.1
  refine ⟨h.toTraced.maintenanceTick now maxRetries, ?_, ?_, h.count⟩ <;> rw [hcontents]
  · intro e he
    rcases Contents.mem_scan_waiting he with hold | ⟨e', he', hlt, rfl⟩
    · exact h.countWaiting e hold
    · -- what comes back has been tried less than `maxRetries` times
      obtain ⟨hcount, -⟩ := h.countInflight e' he'
      refine ⟨hcount, ?_⟩
      change e'.deliveryAttempts < deliveryLimit maxRetries e'.qos
      rw [(h.inflight e' he').2]
      exact Nat.lt_of_lt_of_le hlt (Nat.le_max_right 1 maxRetries)
  · exact fun e he => h.countInflight e (Contents.mem_scan_inflight he)

theorem Counted.rule (hmax : maxRetries < 2 ^ 32) :
    HistoryRule (Counted maxRetries) (· = maxRetries) where
  enqueue h hn now payload qos walId ttl := h.enqueue hn now payload qos walId ttl
  dequeue h now baseDelay := h.dequeue hmax now baseDelay
  ack h tag := h.ack tag
  maintenanceTick := by
    rintro q arrived returned h now _ rfl
    exact h.maintenanceTick now

theorem Counted.new (defaultQos : QoSLevel) (capacity maxRetries : Nat) :
    (new defaultQos capacity).Counted maxRetries [] [] where
  toTraced := .new defaultQos capacity
  countWaiting := List.forall_mem_nil _
  countInflight := List.forall_mem_nil _
  count := List.forall_mem_nil _

end Counted

/-! ## Messages that are settled -/

/-- The message of this tag has arrived and is stored no more. -/
structure Gone (q : SubscriberQueue) (n tag : Nat) : Prop where
  inv : q.Inv n
  old : tag ≤ n
  waiting : ∀ e ∈ q.contents.waiting, e.tag ≠ tag
  inflight : ∀ e ∈ q.contents.inflight, e.tag ≠ tag

section Gone

variable {q : SubscriberQueue} {n tag : Nat}

theorem Gone.act (h : q.Gone n tag) (a : QueueAction) (hn : n + enqueues [a] < 2 ^ 64) :
    (q.act a).Gone (n + enqueues [a]) tag := by
  have hinv := h.inv.act a hn
  have hold : tag ≤ n + enqueues [a] := Nat.le_add_right_of_le h.old
  cases a with
  | enqueue now payload qos walId ttl =>
    have hcontents := contents_enqueue h.inv hn now payload qos walId ttl
    refine ⟨hinv, hold, ?_, ?_⟩ <;> rw [SubscriberQueue.act, hcontents]
    · refine forall_mem_concat ?_ ?_
      · exact fun e he => h.waiting e (List.mem_of_mem_drop he)
      · intro htag
        have hnew : q.nextTag = n + 1 := h.inv.nextTag_eq hn
        have hle := h.old
        change q.nextTag = tag at htag
        omega
    · exact h.inflight
  | dequeue now baseDelay =>
    rcases h.inv.dequeue_contents now baseDelay with
      ⟨-, hcontents, -⟩ | ⟨e, rest, hwaiting, ⟨-, hcontents, -⟩ | ⟨-, hcontents, -⟩⟩
    · refine ⟨hinv, hold, ?_, ?_⟩ <;> rw [SubscriberQueue.act, hcontents]
      · exact h.waiting
      · exact h.inflight
    all_goals
      have hw := h.waiting
      rw [hwaiting] at hw
      obtain ⟨hhead, hrest⟩ := List.forall_mem_cons.mp hw
      refine ⟨hinv, hold, ?_, ?_⟩ <;> rw [SubscriberQueue.act, hcontents]
    · exact hrest
    · exact h.inflight
    · exact hrest
    · exact List.forall_mem_cons.mpr ⟨hhead, h.inflight⟩
  | ack t =>
    refine ⟨hinv, hold, ?_, ?_⟩ <;> rw [SubscriberQueue.act, contents_ack h.inv]
    · exact h.waiting
    · exact fun e he => h.inflight e (List.mem_filter.mp he).1
  | maintenanceTick now maxRetries =>
    have hcontents : (q.maintenanceTick now maxRetries).1.contents = _ :=
      (h.inv.sweep now maxRetries).2.1
    refine ⟨hinv, hold, ?_, ?_⟩ <;> rw [SubscriberQueue.act, hcontents]
    · intro e he
      rcases Contents.mem_scan_waiting he with hstay | ⟨e', he', -, rfl⟩
      · exact h.waiting e hstay
      · exact h.inflight e' he'
    · exact fun e he => h.inflight e (Contents.mem_scan_inflight he)

theorem Gone.returns (h : q.Gone n tag) (a : QueueAction) :
    ∀ r ∈ q.returns a, r.1.tag ≠ tag := by
  cases a with
  | dequeue now baseDelay =>
    rcases h.inv.dequeue_contents now baseDelay with
      ⟨-, -, hreturns⟩ | ⟨e, rest, hwaiting, ⟨-, -, hreturns⟩ | ⟨-, -, hreturns⟩⟩ <;> rw [hreturns]
    · exact List.forall_mem_nil _
    all_goals
      exact List.forall_mem_singleton.mpr
        (h.waiting e (by rw [hwaiting]; exact List.mem_cons_self))
  | enqueue now payload qos walId ttl => exact List.forall_mem_nil _
  | ack t => exact List.forall_mem_nil _
  | maintenanceTick now maxRetries => exact List.forall_mem_nil _

theorem Gone.ack_none (h : q.Gone n tag) : (q.ack tag).2 = none := by
  change (q.inflight.lookup tag).map QueueEntry.walId = none
  cases hl : q.inflight.lookup tag with
  | none => rfl
  | some e =>
    obtain ⟨rfl, -⟩ := h.inv.inflight tag e hl
    exact absurd rfl (h.inflight e (h.inv.mem_inflight.mpr hl))

/-- **What is gone stays gone.** -/
theorem Gone.run (h : q.Gone n tag) (acts : List QueueAction)
    (hn : n + enqueues acts < 2 ^ 64) :
    (acts.foldl SubscriberQueue.act q).Gone (n + enqueues acts) tag ∧
      ∀ r ∈ q.runReturns acts, r.1.tag ≠ tag := by
  induction acts generalizing q n with
  | nil => exact ⟨h, List.forall_mem_nil _⟩
  | cons a acts ih =>
    rw [add_enqueues_cons] at hn ⊢
    obtain ⟨hgone, hreturns⟩ := ih (h.act a (by omega)) hn
    exact ⟨hgone, List.forall_mem_append.mpr ⟨h.returns a, hreturns⟩⟩

/-- An ack that finds its tag takes the message away. -/
theorem Inv.gone_of_ack (h : q.Inv n) (hsome : (q.ack tag).2.isSome) :
    (q.ack tag).1.Gone n tag := by
  change ((q.inflight.lookup tag).map QueueEntry.walId).isSome at hsome
  rw [Option.isSome_map, Option.isSome_iff_exists] at hsome
  obtain ⟨e, he⟩ := hsome
  obtain ⟨-, hle, hpending⟩ := h.inflight tag e he
  refine ⟨h.ack tag, hle, ?_, ?_⟩ <;> rw [contents_ack h]
  · rintro e' he' rfl
    exact hpending (h.pendingEntries _ _ (h.mem_waiting.mp he')).2
  · intro e' he'
    exact of_decide_eq_true (List.mem_filter.mp he').2

/-- What a tick drops is stored no more. -/
theorem Inv.gone_of_dropped (h : q.Inv n) {now maxRetries : Nat} {d : QueueEntry × DropReason}
    (hd : d ∈ (q.sweep now maxRetries).2) : (q.sweep now maxRetries).1.Gone n d.1.tag := by
  obtain ⟨hinv, hcontents, hdropped⟩ := h.sweep now maxRetries
  -- the tags before are those of what is dropped and of what is kept
  have hperm : ((q.contents.waiting ++ q.contents.inflight).map QueueEntry.tag).Perm
      (((q.contents.scan now maxRetries).2.map Prod.fst).map QueueEntry.tag ++
        ((q.contents.scan now maxRetries).1.waiting ++
          (q.contents.scan now maxRetries).1.inflight).map QueueEntry.tag) := by
    have hmessages := (q.contents.scan_perm now maxRetries).map QueueEntry.tag
    simp only [Contents.messages, List.map_append, List.map_map] at hmessages ⊢
    exact hmessages
  have hnodup := hperm.nodup_iff.mp h.tags_nodup
  have hmem : d.1.tag ∈ ((q.contents.scan now maxRetries).2.map Prod.fst).map QueueEntry.tag :=
    List.mem_map_of_mem (List.mem_map_of_mem (hdropped.mem_iff.mp hd))
  have hstored := hperm.mem_iff.mpr (List.mem_append_left _ hmem)
  have hother : ∀ e ∈ (q.contents.scan now maxRetries).1.waiting ++
      (q.contents.scan now maxRetries).1.inflight, e.tag ≠ d.1.tag := by
    intro e he htag
    exact (List.nodup_append.mp hnodup).2.2 _ hmem _ (List.mem_map_of_mem he) htag.symm
  obtain ⟨e, he, htag⟩ := List.mem_map.mp hstored
  refine ⟨hinv, ?_, ?_, ?_⟩
  · rw [← htag]
    rcases List.mem_append.mp he with hw | hi
    · exact h.pending_le _ (h.pendingEntries _ _ (h.mem_waiting.mp hw)).2
    · exact (h.inflight _ _ (h.mem_inflight.mp hi)).2.1
  · rw [hcontents]
    exact fun e he => hother e (List.mem_append_left _ he)
  · rw [hcontents]
    exact fun e he => hother e (List.mem_append_right _ he)

/-- In this state the operation settles the message: the ack of its tag is
accepted, or the tick drops it. -/
def Settles (q : SubscriberQueue) (a : QueueAction) (m : QueueEntry) : Prop :=
  (a = .ack m.tag ∧ (q.ack m.tag).2.isSome) ∨
    ∃ now maxRetries, a = .maintenanceTick now maxRetries ∧
      m ∈ (q.sweep now maxRetries).2.map fun d => d.1.message

theorem Inv.gone_of_settles (h : q.Inv n) {a : QueueAction} {m : QueueEntry}
    (hsettles : q.Settles a m) : (q.act a).Gone n m.tag := by
  rcases hsettles with ⟨rfl, hsome⟩ | ⟨now, maxRetries, rfl, hm⟩
  · exact h.gone_of_ack hsome
  · obtain ⟨d, hd, rfl⟩ := List.mem_map.mp hm
    exact h.gone_of_dropped hd

end Gone

/-! ## Delivery counts are bounded and acks are final -/

/-- The returns of a message. -/
def returnsOf (m : QueueEntry) (returned : List (QueueEntry × Option Nat)) :
    List (QueueEntry × Option Nat) :=
  returned.filter (·.1.message = m)

section Final

variable {q : SubscriberQueue} {arrived : List QueueEntry}
  {returned : List (QueueEntry × Option Nat)} {maxRetries : Nat} {m : QueueEntry}

theorem Counted.length_returnsOf (h : q.Counted maxRetries arrived returned) (hm : m ∈ arrived) :
    (returnsOf m returned).length ≤ deliveryLimit maxRetries m.qos := by
  refine Nat.le_trans ?_ (h.count m hm)
  rw [returnsOf, ← List.countP_eq_length_filter]
  refine List.countP_mono_left fun r _ hr => ?_
  rw [← of_decide_eq_true hr]
  exact decide_eq_true rfl

theorem Traced.label_of_returnsOf (h : q.Traced arrived returned) {r : QueueEntry × Option Nat}
    (hr : r ∈ returnsOf m returned) : r.2 = label m := by
  obtain ⟨hr, hmessage⟩ := List.mem_filter.mp hr
  rw [(h.origin r hr).2, ← of_decide_eq_true hmessage]
  rfl

/-- Once a message is settled, it is neither returned nor acked any more. -/
theorem settled_for_good {defaultQos : QoSLevel} {capacity : Nat}
    {before after : List QueueAction} {a : QueueAction}
    (hlt : enqueues (before ++ a :: after) < 2 ^ 64)
    (hsettles : (before.foldl act (new defaultQos capacity)).Settles a m) :
    (∀ r ∈ ((before ++ [a]).foldl act (new defaultQos capacity)).runReturns after,
      r.1.message ≠ m) ∧
    ∀ done rest, after = done ++ .ack m.tag :: rest →
      (((before ++ a :: done).foldl act (new defaultQos capacity)).ack m.tag).2 = none := by
  rw [enqueues_append, enqueues_cons] at hlt
  have hinv := (Inv.new defaultQos capacity).run before (by omega)
  have hgone := hinv.gone_of_settles hsettles
  constructor
  · intro r hr hmessage
    rw [List.foldl_append] at hr
    refine (hgone.run after (by omega)).2 r hr ?_
    rw [← hmessage]
    rfl
  · rintro done rest rfl
    rw [enqueues_append] at hlt
    rw [List.foldl_append]
    exact (hgone.run done (by omega)).1.ack_none

end Final

/-- **Delivery counts are bounded and acks are final.** The tags of the messages
count their arrivals, and whatever is returned is one of them. A message of QoS0
is returned at most once, without a tag; one of QoS1 at most `max 1 maxRetries`
times, always with its tag. Once its ack was accepted or a tick has dropped it,
a message is never returned again, and no further ack of its tag is accepted. -/
theorem deliveries_bounded_acks_final (defaultQos : QoSLevel) (capacity maxRetries : Nat)
    (hmax : maxRetries < 2 ^ 32) (acts : List QueueAction)
    (hfixed : ∀ now retries, .maintenanceTick now retries ∈ acts → retries = maxRetries)
    (hlt : enqueues acts < 2 ^ 64) :
    let q := new defaultQos capacity
    let arrived := q.runArrivals acts
    let returned := q.runReturns acts
    arrived.map QueueEntry.tag = List.range' 1 (enqueues acts) ∧
    (∀ r ∈ returned, r.1.message ∈ arrived) ∧
    ∀ m ∈ arrived,
      (m.qos = .atMostOnce → (returnsOf m returned).length ≤ 1 ∧
        ∀ r ∈ returnsOf m returned, r.2 = none) ∧
      (m.qos = .atLeastOnce → (returnsOf m returned).length ≤ max 1 maxRetries ∧
        ∀ r ∈ returnsOf m returned, r.2 = some m.tag) ∧
      ∀ before a after, acts = before ++ a :: after → (before.foldl act q).Settles a m →
        (∀ r ∈ ((before ++ [a]).foldl act q).runReturns after, r.1.message ≠ m) ∧
        ∀ done rest, after = done ++ .ack m.tag :: rest →
          (((before ++ a :: done).foldl act q).ack m.tag).2 = none := by
  intro q arrived returned
  have h : (acts.foldl act q).Counted maxRetries arrived returned :=
    (Counted.rule hmax).run (Counted.new defaultQos capacity maxRetries) acts hfixed (by simpa)
  have hlen : arrived.length = enqueues acts := length_runArrivals q acts
  refine ⟨?_, fun r hr => (h.origin r hr).1, ?_⟩
  · rw [← hlen]
    exact h.tags
  intro m hm
  have hcount := h.length_returnsOf hm
  have hlabel := fun r => h.label_of_returnsOf (m := m) (r := r)
  refine ⟨?_, ?_, ?_⟩
  · intro hqos
    rw [hqos] at hcount
    simp only [label, hqos] at hlabel
    exact ⟨hcount, hlabel⟩
  · intro hqos
    rw [hqos] at hcount
    simp only [label, hqos] at hlabel
    exact ⟨hcount, hlabel⟩
  · rintro before a after rfl hsettles
    exact settled_for_good hlt hsettles

/-- One message at QoS1 with two tries: it is returned twice, then dropped. -/
theorem deliveries_bounded_acks_final_two_tries :
    let acts : List QueueAction := [.enqueue 0 [1] .atLeastOnce none none, .dequeue 0 10,
      .maintenanceTick 10 2, .dequeue 10 10, .maintenanceTick 40 2, .dequeue 40 10]
    let q := new .atLeastOnce 4
    let m : QueueEntry := ⟨1, [1], .atLeastOnce, none, 0, none, 0, 0⟩
    (returnsOf m (q.runReturns acts)).length = 2 ∧
      (returnsOf m (q.runReturns acts)).length ≤ 2 := by
  intro acts q m
  have hfixed : ∀ now retries, .maintenanceTick now retries ∈ acts → retries = 2 := by
    intro now retries h
    simp only [acts, List.mem_cons, QueueAction.maintenanceTick.injEq, reduceCtorEq, false_or,
      List.not_mem_nil, or_false] at h
    omega
  obtain ⟨-, -, h⟩ :=
    deliveries_bounded_acks_final .atLeastOnce 4 2 (by decide) acts hfixed (by decide)
  exact ⟨by decide, ((h m (by decide)).2.1 rfl).1⟩

end SubscriberQueue

end BlipMQ.Core
