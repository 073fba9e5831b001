import BlipMQ.Core.DeadLetter
import BlipMQ.Core.Scan
import BlipMQ.Core.Service

/-!
# Broker — which deliveries are retried

A delivery in flight is retried, or given up, by the tick that finds its
item in the retry heap. `dequeue` pushes that item and
`register_push_inflight` does not, so what is polled comes back and what is
pushed stays in flight until it expires. The tick then publishes its dead
letters, and one of them can come into a full queue and put out what has just
come back.
-/

namespace BlipMQ.Core

namespace SubscriberQueue

/-- Entries in flight stand under their own tags. -/
def Keyed (q : SubscriberQueue) : Prop := ∀ t e, q.inflight.lookup t = some e → e.tag = t

variable {q : SubscriberQueue}

/-! ## The retry loop -/

/-- The delivery is available again, or reported as tried too often. -/
def Settled (now maxRetries t : Nat) (e : QueueEntry) (s : Sweep) : Prop :=
  (e.deliveryAttempts < maxRetries ∧ s.1.pendingEntries.lookup t = some (e.retryAt now) ∧
      t ∈ s.1.pending) ∨
    (maxRetries ≤ e.deliveryAttempts ∧ (e, .maxRetriesExceeded) ∈ s.2)

section RetryLoop

variable {now maxRetries t : Nat} {e : QueueEntry} {s : Sweep} {x : RetryEntry}

/-- What an item leaves alone: the tags of other deliveries, and every tag that
is not in flight. -/
structure Spared (t : Nat) (s s' : Sweep) : Prop where
  inflight : s'.1.inflight.lookup t = s.1.inflight.lookup t
  pendingEntries : s'.1.pendingEntries.lookup t = s.1.pendingEntries.lookup t
  pending : s.1.pending ⊆ s'.1.pending
  dropped : s.2 ⊆ s'.2

theorem Spared.refl (t : Nat) (s : Sweep) : Spared t s s := ⟨rfl, rfl, fun _ h => h, fun _ h => h⟩

theorem Spared.settled {s' : Sweep} (h : Spared t s s') (hs : Settled now maxRetries t e s) :
    Settled now maxRetries t e s' := by
  rcases hs with ⟨hlt, hl, hmem⟩ | ⟨hle, hmem⟩
  · exact .inl ⟨hlt, h.pendingEntries.trans hl, h.pending hmem⟩
  · exact .inr ⟨hle, h.dropped hmem⟩

theorem retryOne_spared (hkeyed : s.1.Keyed)
    (h : x.tag ≠ t ∨ s.1.inflight.lookup t = none) :
    Spared t s (retryOne now maxRetries s x) := by
  unfold retryOne
  cases hl : s.1.inflight.lookup x.tag with
  | none => exact .refl t s
  | some entry =>
    have hne : t ≠ x.tag := by
      rintro rfl
      rcases h with h | h
      · exact h rfl
      · rw [hl] at h
        cases h
    have htag : entry.tag = x.tag := hkeyed _ _ hl
    dsimp only
    split
    · exact .refl t s
    · split
      · exact ⟨AList.lookup_erase_ne hne, rfl, fun _ h => h, List.subset_append_left ..⟩
      · refine ⟨AList.lookup_erase_ne hne, AList.lookup_insert_ne ?_,
          List.subset_append_left .., fun _ h => h⟩
        rw [htag]
        exact hne

theorem Keyed.erase {q : SubscriberQueue} (h : q.Keyed) (tag : Nat) :
    Keyed { q with inflight := q.inflight.erase tag } :=
  forall_lookup_erase h tag

theorem retryOne_keyed (hkeyed : s.1.Keyed) : (retryOne now maxRetries s x).1.Keyed := by
  have herase := hkeyed.erase x.tag
  unfold retryOne
  split
  · exact hkeyed
  · split
    · exact hkeyed
    · split
      · exact herase
      · exact fun u entry hu => herase u entry hu

variable (now maxRetries) in
/-- The item of a delivery settles it. -/
theorem retryOne_hit (hkeyed : s.1.Keyed) (hl : s.1.inflight.lookup t = some e) :
    (retryOne now maxRetries s ⟨e.nextDeliveryAt, t⟩).1.inflight.lookup t = none ∧
      Settled now maxRetries t e (retryOne now maxRetries s ⟨e.nextDeliveryAt, t⟩) := by
  have htag : e.tag = t := hkeyed t e hl
  unfold retryOne
  simp only [hl]
  rw [if_neg (by simp)]
  by_cases hmax : maxRetries ≤ e.deliveryAttempts
  · rw [if_pos hmax]
    exact ⟨AList.lookup_erase .., .inr ⟨hmax, List.mem_append_right _ (List.mem_singleton_self _)⟩⟩
  · rw [if_neg hmax]
    refine ⟨AList.lookup_erase .., .inl ⟨by omega, ?_, ?_⟩⟩
    · show (s.1.pendingEntries.insert e.tag (e.retryAt now)).lookup t = _
      rw [htag, AList.lookup_insert]
    · rw [htag]
      exact List.mem_append_right _ (List.mem_singleton_self _)

/-- Once out of flight, a delivery is left alone by every further item. -/
theorem foldl_retryOne_spared {items : List RetryEntry} (hkeyed : s.1.Keyed)
    (hnone : s.1.inflight.lookup t = none) :
    Spared t s (items.foldl (retryOne now maxRetries) s) := by
  induction items generalizing s with
  | nil => exact .refl t s
  | cons x items ih =>
    have hone : Spared t s (retryOne now maxRetries s x) := retryOne_spared hkeyed (.inr hnone)
    have hrest := ih (retryOne_keyed hkeyed) (hone.inflight.trans hnone)
    exact ⟨hrest.inflight.trans hone.inflight, hrest.pendingEntries.trans hone.pendingEntries,
      fun _ h => hrest.pending (hone.pending h), fun _ h => hrest.dropped (hone.dropped h)⟩

variable (now maxRetries) in
/-- The items decide about a delivery: it is settled if its own is among them and
stays in flight otherwise. -/
theorem foldl_retryOne_cases (items : List RetryEntry) (hkeyed : s.1.Keyed)
    (hl : s.1.inflight.lookup t = some e) :
    (⟨e.nextDeliveryAt, t⟩ ∈ items →
      (items.foldl (retryOne now maxRetries) s).1.inflight.lookup t = none ∧
        Settled now maxRetries t e (items.foldl (retryOne now maxRetries) s)) ∧
    (⟨e.nextDeliveryAt, t⟩ ∉ items →
      (items.foldl (retryOne now maxRetries) s).1.inflight.lookup t = some e) := by
  induction items generalizing s with
  | nil => exact ⟨nofun, fun _ => hl⟩
  | cons x items ih =>
    rw [List.foldl_cons]
    by_cases hx : x = ⟨e.nextDeliveryAt, t⟩
    · subst hx
      obtain ⟨hnone, hsettled⟩ := retryOne_hit now maxRetries hkeyed hl
      -- the first item settles it, and out of flight no other one finds it
      have hrest : Spared t _ (items.foldl (retryOne now maxRetries) _) :=
        foldl_retryOne_spared (retryOne_keyed hkeyed) hnone
      exact ⟨fun _ => ⟨hrest.inflight.trans hnone, hrest.settled hsettled⟩,
        fun hnot => absurd List.mem_cons_self hnot⟩
    · have hsame : (retryOne now maxRetries s x).1.inflight.lookup t = some e := by
        by_cases htag : x.tag = t
        · -- the tag is the delivery's but the time is another one
          have htime : e.nextDeliveryAt ≠ x.nextDeliveryAt := by
            intro heq
            obtain ⟨time, tag⟩ := x
            simp only at htag heq
            exact hx (by rw [htag, heq])
          unfold retryOne
          rw [htag, hl]
          simp only [ne_eq, htime, not_false_eq_true, if_true]
          exact hl
        · exact (retryOne_spared hkeyed (.inl htag)).inflight.trans hl
      obtain ⟨hin, hout⟩ := ih (retryOne_keyed hkeyed) hsame
      have hcons : ⟨e.nextDeliveryAt, t⟩ ∈ x :: items ↔ ⟨e.nextDeliveryAt, t⟩ ∈ items := by
        rw [List.mem_cons]
        exact or_iff_right fun heq => hx heq.symm
      rw [hcons]
      exact ⟨hin, hout⟩

end RetryLoop

/-! ## The tick -/

section Tick

variable {q : SubscriberQueue} {now maxRetries t : Nat} {e : QueueEntry}

theorem Keyed.expireLoop (h : q.Keyed) (now : Nat) : (expireLoop now q).1.Keyed := by
  intro t e ht
  rcases (expireLoop_expires q now).inflight t with heq | ⟨hnone, -⟩
  · exact h t e (heq ▸ ht)
  · rw [hnone] at ht
    cases ht

/-- **The tick settles a delivery that is due and has not expired just if its
item is in the retry heap**; without it, the delivery stays in flight. -/
theorem sweep_cases (h : q.Keyed) (hl : q.inflight.lookup t = some e)
    (hdue : e.nextDeliveryAt ≤ now) (hexp : e.expired now = false) :
    (⟨e.nextDeliveryAt, t⟩ ∈ q.retryHeap →
      (q.sweep now maxRetries).1.inflight.lookup t = none ∧
        Settled now maxRetries t e (q.sweep now maxRetries)) ∧
    (⟨e.nextDeliveryAt, t⟩ ∉ q.retryHeap →
      (q.sweep now maxRetries).1.inflight.lookup t = some e) := by
  have hexpires := expireLoop_expires q now
  have hl' : (expireLoop now q).1.inflight.lookup t = some e := by
    rcases hexpires.inflight t with heq | ⟨-, e', he', hexp'⟩
    · exact heq.trans hl
    · rw [hl] at he'
      cases he'
      rw [hexp] at hexp'
      cases hexp'
  have hitem : ⟨e.nextDeliveryAt, t⟩ ∈ (expireLoop now q).1.dueRetries now ↔
      ⟨e.nextDeliveryAt, t⟩ ∈ q.retryHeap := by
    rw [mem_dueRetries, hexpires.retryHeap]
    exact and_iff_left hdue
  obtain ⟨hin, hout⟩ := foldl_retryOne_cases now maxRetries
    ((expireLoop now q).1.dueRetries now) (h.expireLoop now) hl'
  rw [hitem] at hin hout
  rw [sweep, retryLoop_foldl]
  exact ⟨hin, hout⟩

/-- What is in flight after the tick was so before, and its item has stayed. -/
theorem sweep_inflight (h : q.Keyed)
    (hl : (q.sweep now maxRetries).1.inflight.lookup t = some e) :
    q.inflight.lookup t = some e ∧
      (⟨e.nextDeliveryAt, t⟩ ∈ q.retryHeap →
        ⟨e.nextDeliveryAt, t⟩ ∈ (q.sweep now maxRetries).1.retryHeap) := by
  have hexpires := expireLoop_expires q now
  have hkeyed := h.expireLoop now
  rw [sweep, retryLoop_foldl] at hl ⊢
  dsimp only at hl ⊢
  cases hbefore : (expireLoop now q).1.inflight.lookup t with
  | none =>
    have hspared : Spared t _ (((expireLoop now q).1.dueRetries now).foldl
        (retryOne now maxRetries) (expireLoop now q)) := foldl_retryOne_spared hkeyed hbefore
    rw [hspared.inflight, hbefore] at hl
    cases hl
  | some e' =>
    obtain ⟨hin, hout⟩ := foldl_retryOne_cases now maxRetries
      ((expireLoop now q).1.dueRetries now) hkeyed hbefore
    by_cases hitem : ⟨e'.nextDeliveryAt, t⟩ ∈ (expireLoop now q).1.dueRetries now
    · rw [(hin hitem).1] at hl
      cases hl
    · rw [hout hitem] at hl
      cases hl
      refine ⟨?_, fun hmem => List.mem_filter.mpr ⟨hexpires.retryHeap ▸ hmem, ?_⟩⟩
      · rcases hexpires.inflight t with heq | ⟨hnone, -⟩
        · exact heq ▸ hbefore
        · rw [hnone] at hbefore
          cases hbefore
      · rw [mem_dueRetries, hexpires.retryHeap] at hitem
        simpa using fun hle => hitem ⟨hmem, hle⟩

end Tick

/-! ## Every queue of every run -/

/-- Every delivery in flight has its item in the retry heap. -/
def Retriable (q : SubscriberQueue) : Prop :=
  ∀ t e, q.inflight.lookup t = some e → ⟨e.nextDeliveryAt, t⟩ ∈ q.retryHeap

/-- All queues are keyed, and those that are polled are retriable. -/
theorem retriable_rule :
    QueueRule fun mode q => q.Keyed ∧ (mode = .poll → q.Retriable) where
  new _ _ _ := ⟨nofun, fun _ => nofun⟩
  enqueue _ _ _ _ _ _ _ h := h
  push mode q now tag payload walId ttl hmode h := by
    exact ⟨forall_lookup_insert h.1 rfl, fun hpoll => absurd hpoll hmode⟩
  erase mode q tag h := by
    exact ⟨h.1.erase tag, fun hpoll => forall_lookup_erase (h.2 hpoll) tag⟩
  dequeue mode q now baseDelay h := by
    rcases q.dequeue_cases now baseDelay with ⟨-, heq⟩ | ⟨_, u, rest, e, -, -, -, -, heq⟩
    · rw [heq]
      exact h
    · rw [heq]
      cases e.qos with
      | atMostOnce => exact h
      | atLeastOnce =>
        refine ⟨forall_lookup_insert h.1 rfl, fun hpoll => forall_lookup_insert ?_ ?_⟩
        · exact fun t e' ht => List.mem_cons_of_mem _ (h.2 hpoll t e' ht)
        · exact List.mem_cons_self
  tick mode q now maxRetries h := by
    have hafter : ∀ t e, (q.sweep now maxRetries).1.inflight.lookup t = some e →
        q.inflight.lookup t = some e ∧ (⟨e.nextDeliveryAt, t⟩ ∈ q.retryHeap →
          ⟨e.nextDeliveryAt, t⟩ ∈ (q.sweep now maxRetries).1.retryHeap) :=
      fun t e ht => sweep_inflight h.1 ht
    exact ⟨fun t e ht => h.1 t e (hafter t e ht).1,
      fun hpoll t e ht => (hafter t e ht).2 (h.2 hpoll t e (hafter t e ht).1)⟩

/-- From one queue to the other by enqueues alone. -/
def Enqueues (q q' : SubscriberQueue) : Prop :=
  ∃ acts : List QueueAction, (∀ a ∈ acts, a.isEnqueue = true) ∧ q' = acts.foldl act q

theorem Enqueues.trans {q' q'' : SubscriberQueue} (h : q.Enqueues q') (h' : q'.Enqueues q'') :
    q.Enqueues q'' := by
  obtain ⟨acts, hacts, rfl⟩ := h
  obtain ⟨acts', hacts', rfl⟩ := h'
  refine ⟨acts ++ acts', fun a ha => ?_, (List.foldl_append ..).symm⟩
  exact (List.mem_append.mp ha).elim (hacts a) (hacts' a)

end SubscriberQueue

/-! ## The tick of the broker -/

namespace Broker

open SubscriberQueue (Enqueues Settled)

variable {E : Externals} {b : Broker} {x : Nat} {sub : Subscriber}

theorem enqueues_foldl (now : Nat) (ttl : Option Nat) (os : List Offer) (sub : Subscriber) :
    sub.queue.Enqueues (os.foldl (fun sub o => sub.enqueue now o ttl) sub).queue := by
  induction os generalizing sub with
  | nil => exact ⟨[], nofun, rfl⟩
  | cons o os ih =>
    have hone : sub.queue.Enqueues (sub.enqueue now o ttl).queue :=
      ⟨[.enqueue now o.payload o.qos o.walId ttl], by simp [QueueAction.isEnqueue], rfl⟩
    exact hone.trans (ih _)

/-- A subscriber that polls is enqueued a message as often as it is among the
targets. -/
theorem publishInner_polled (now : Nat) (o : Offer) (ttl : Option Nat) (key : Option Bytes)
    (hx : b.subscribers.lookup x = some sub) (hmode : sub.mode = .poll) :
    (b.publishInner E now none o ttl key).subscribers.lookup x =
      some ((List.replicate ((b.targets E o.topic key).count x) o).foldl
        (fun sub o => sub.enqueue now o (ttl.or (some b.config.messageTtl))) sub) := by
  rcases publishInner_cases E b now none o ttl key with
    ⟨hdown, heq⟩ | ⟨hrunning, b₁, _, _, _, evicted, -, hserved, heq, -⟩
  · rw [heq, targets, hdown]
    exact hx
  · have hstart := (startPublish_same E b (b.record o.topic none) o.walId key).subscribers
    rw [heq, (Forgets.foldl unsubscribeOne_forgets _ _).subscribers,
      (endPublish_same ..).subscribers, targets, hrunning]
    exact hserved.polled x sub (hstart ▸ hx) hmode

theorem lookup_tickOne_of_ne {now : Nat} {s : Broker × List (String × Bytes)}
    {e : Sigma fun _ : Nat => SubscriptionRef} (h : x ≠ e.1) :
    (tickOne now s e).1.subscribers.lookup x = s.1.subscribers.lookup x := by
  unfold tickOne
  split
  · rfl
  · exact AList.lookup_insert_ne h

theorem config_tickOne (now : Nat) (s : Broker × List (String × Bytes))
    (e : Sigma fun _ : Nat => SubscriptionRef) : (tickOne now s e).1.config = s.1.config := by
  unfold tickOne
  split <;> rfl

/-- The walk ticks the queue of every subscription, once. -/
theorem lookup_foldl_tickOne (now : Nat) {entries : List (Sigma fun _ : Nat => SubscriptionRef)}
    (hnd : entries.NodupKeys) (s : Broker × List (String × Bytes)) (x : Nat) :
    (entries.foldl (tickOne now) s).1.subscribers.lookup x =
      if x ∈ entries.keys then (s.1.subscribers.lookup x).map fun sub =>
        { sub with queue := (sub.queue.maintenanceTick now s.1.config.maxRetries).1 }
      else s.1.subscribers.lookup x := by
  induction entries generalizing s with
  | nil => rfl
  | cons e entries ih =>
    obtain ⟨hnew, hnd⟩ := List.nodupKeys_cons.mp hnd
    rw [List.foldl_cons, ih hnd, config_tickOne]
    by_cases hx : x = e.1
    · subst hx
      rw [if_neg hnew, if_pos (by simp)]
      unfold tickOne
      cases hl : s.1.subscribers.lookup e.1 with
      | none => exact hl
      | some sub => exact AList.lookup_insert _
    · rw [lookup_tickOne_of_ne hx]
      simp [List.keys_cons, hx]

theorem lookup_tickQueues (now : Nat) (hlive : x ∈ b.subscriptions)
    (hx : b.subscribers.lookup x = some sub) :
    (b.tickQueues now).1.subscribers.lookup x =
      some { sub with queue := (sub.queue.maintenanceTick now b.config.maxRetries).1 } := by
  have hkeys : x ∈ b.subscriptions.entries.keys := hlive
  rw [tickQueues, lookup_foldl_tickOne now b.subscriptions.nodupKeys, if_pos hkeys, hx]
  rfl

/-- The dead letters only enqueue. -/
theorem maintenanceTick_polled (now clock : Nat) (hlive : x ∈ b.subscriptions)
    (hx : b.subscribers.lookup x = some sub) (hmode : sub.mode = .poll) :
    ∃ sub', (b.maintenanceTick E now clock).subscribers.lookup x = some sub' ∧
      (sub.queue.maintenanceTick now b.config.maxRetries).1.Enqueues sub'.queue := by
  have hgen : ∀ (letters : List (String × Bytes)) (b : Broker) (sub : Subscriber),
      b.subscribers.lookup x = some sub → sub.mode = .poll →
      ∃ sub', (letters.foldl (publishDeadLetter E clock) b).subscribers.lookup x = some sub' ∧
        sub.queue.Enqueues sub'.queue := by
    intro letters
    induction letters with
    | nil => exact fun b sub hx _ => ⟨sub, hx, [], nofun, rfl⟩
    | cons letter letters ih =>
      intro b sub hx hmode
      have hx₁ := publishInner_polled (E := E) clock ⟨none, letter.1, letter.2, .atMostOnce⟩ none
        none hx hmode
      obtain ⟨sub₂, hx₂, henq₂⟩ := ih _ _ hx₁ ((Served.mode_foldl ..).trans hmode)
      exact ⟨sub₂, hx₂, (enqueues_foldl ..).trans henq₂⟩
  exact hgen _ _ _ (lookup_tickQueues now hlive hx) hmode

/-- If no dead letter is routed to the subscription, then the whole tick leaves it as
the walk over the queues does. -/
theorem lookup_maintenanceTick_spared {s : System} (hsound : s.Sound) {now clock : Nat}
    (hspared : s.NoLetterReaches E now clock x)
    (hx : (s.broker.tickQueues now).1.subscribers.lookup x = some sub) (hmode : sub.mode = .poll) :
    (s.broker.maintenanceTick E now clock).subscribers.lookup x = some sub := by
  have hgen : ∀ before after, s.broker.ownLetters now = before ++ after →
      (s.broker.afterLetters E clock now before).subscribers.lookup x = some sub := by
    intro before
    induction before using List.reverseRecOn with
    | nil => exact fun _ _ => hx
    | append_singleton before p ih =>
      obtain ⟨y, letter⟩ := p
      intro after hsplit
      rw [List.append_assoc, List.singleton_append] at hsplit
      have hcount := hspared before y letter after hsplit
      rw [hsound.reaches_iff (afterLetters_drops hsound.consistent before), Nat.pos_iff_ne_zero,
        not_not] at hcount
      rw [afterLetters_snoc, publishDeadLetter, publishInner_polled _ _ _ _ (ih _ hsplit) hmode,
        hcount]
      rfl
  rw [maintenanceTick_eq_afterLetters]
  exact hgen _ [] (List.append_nil _).symm

/-- **Which unacked deliveries come back.** In every state of every run, the walk of
the tick over the queues settles a due, unexpired delivery of a live subscription
just if its item is in the retry heap. Of a subscription that polls, every delivery
has its item; the rest of the tick only enqueues dead letters, and if none of them is
routed to the subscription, the whole tick has settled the delivery. -/
theorem unacked_retried (E : Externals) (config : BrokerConfig) (hasWal : Bool)
    (acts : List BrokerAction) (now clock x : Nat) (sub : Subscriber)
    (hlive : x ∈ ((System.new config hasWal).run E acts).broker.subscriptions)
    (hx : ((System.new config hasWal).run E acts).broker.subscribers.lookup x = some sub) :
    let b := ((System.new config hasWal).run E acts).broker
    let out := sub.queue.sweep now b.config.maxRetries
    ((b.tickQueues now).1.subscribers.lookup x = some { sub with queue := out.1 }) ∧
    (∀ t e, sub.queue.inflight.lookup t = some e → e.nextDeliveryAt ≤ now →
      e.expired now = false →
        (⟨e.nextDeliveryAt, t⟩ ∈ sub.queue.retryHeap →
          Settled now b.config.maxRetries t e out ∧ out.1.inflight.lookup t = none) ∧
        (⟨e.nextDeliveryAt, t⟩ ∉ sub.queue.retryHeap → out.1.inflight.lookup t = some e)) ∧
    (sub.mode = .poll →
      (∀ t e, sub.queue.inflight.lookup t = some e →
        ⟨e.nextDeliveryAt, t⟩ ∈ sub.queue.retryHeap) ∧
      ∃ sub', (b.maintenanceTick E now clock).subscribers.lookup x = some sub' ∧
        out.1.Enqueues sub'.queue ∧
        (((System.new config hasWal).run E acts).NoLetterReaches E now clock x →
          ∀ t e, sub.queue.inflight.lookup t = some e → e.nextDeliveryAt ≤ now →
            e.expired now = false → Settled now b.config.maxRetries t e (sub'.queue, out.2) ∧
              sub'.queue.inflight.lookup t = none)) := by
  intro b out
  obtain ⟨hkeyed, hretriable⟩ :=
    System.queues_run SubscriberQueue.retriable_rule E config hasWal acts x sub hx
  have hwalk : ∀ t e, sub.queue.inflight.lookup t = some e → e.nextDeliveryAt ≤ now →
      e.expired now = false → (⟨e.nextDeliveryAt, t⟩ ∈ sub.queue.retryHeap →
        Settled now b.config.maxRetries t e out ∧ out.1.inflight.lookup t = none) ∧
      (⟨e.nextDeliveryAt, t⟩ ∉ sub.queue.retryHeap → out.1.inflight.lookup t = some e) := by
    intro t e hl hdue hexp
    obtain ⟨hin, hout⟩ := SubscriberQueue.sweep_cases hkeyed hl hdue hexp
    exact ⟨fun hitem => ⟨(hin hitem).2, (hin hitem).1⟩, hout⟩
  have hticked := lookup_tickQueues now hlive hx
  refine ⟨hticked, hwalk, fun hmode => ⟨hretriable hmode, ?_⟩⟩
  obtain ⟨sub', hx', henq⟩ := maintenanceTick_polled (E := E) now clock hlive hx hmode
  refine ⟨sub', hx', henq, fun hspared t e hl hdue hexp => ?_⟩
  have hsame := lookup_maintenanceTick_spared ((System.Sound.new config hasWal).run acts) hspared
    hticked hmode
  cases hx'.symm.trans hsame
  exact (hwalk t e hl hdue hexp).1 (hretriable hmode t e hl)

/-- A polled QoS1 message, unacked when its backoff of 50 ms has passed; it is the
first of two, and the second has expired and goes to the dead letters. -/
theorem unacked_retried_polled :
    let acts : List BrokerAction := [.subscribe "c" "a" .atLeastOnce none .poll none,
      .publish 0 none ⟨none, "a", [7], .atLeastOnce⟩ none none,
      .publish 0 none ⟨none, "a", [8], .atLeastOnce⟩ (some 5) none, .poll 0 1]
    let b := ((System.new .default true).run bareExternals acts).broker
    let e : QueueEntry :=
      ⟨1, [7], .atLeastOnce, none, 0, some (60 * 10 ^ 9), 1, 50 * 10 ^ 6⟩
    b.ownLetters (50 * 10 ^ 6) = [(1, "a.dlq", [8])] ∧
    ∃ sub sub', b.subscribers.lookup 1 = some sub ∧ sub.queue.inflight.lookup 1 = some e ∧
      (b.maintenanceTick bareExternals (50 * 10 ^ 6) 0).subscribers.lookup 1 = some sub' ∧
      Settled (50 * 10 ^ 6) 3 1 e (sub'.queue, (sub.queue.sweep (50 * 10 ^ 6) 3).2) := by
  intro acts b e
  have hlive : 1 ∈ b.subscriptions := by decide +kernel
  have hinflight : (b.subscribers.lookup 1).map (·.queue.inflight.lookup 1) = some (some e) := by
    decide +kernel
  have hpoll : (b.subscribers.lookup 1).map (·.mode) = some .poll := by decide +kernel
  obtain ⟨sub, hx, he⟩ := Option.map_eq_some_iff.mp hinflight
  rw [hx] at hpoll
  have hthm := unacked_retried bareExternals .default true acts (50 * 10 ^ 6) 0 1 sub hlive hx
  have hletters : b.ownLetters (50 * 10 ^ 6) = [(1, "a.dlq", [8])] := by decide +kernel
  -- nobody is subscribed to the dead letters
  have hspared : ((System.new .default true).run bareExternals acts).NoLetterReaches bareExternals
      (50 * 10 ^ 6) 0 1 := by
    intro before y letter after hsplit hreaches
    have hnone : (b.tickQueues (50 * 10 ^ 6)).1.targets bareExternals "a.dlq" none = [] := by
      decide +kernel
    cases before with
    | nil =>
      cases hletters.symm.trans hsplit
      have hsound := (System.Sound.new .default true).run (E := bareExternals) acts
      rw [hsound.reaches_iff (afterLetters_drops hsound.consistent [])] at hreaches
      exact absurd (List.count_pos_iff.mp hreaches) (hnone ▸ List.not_mem_nil)
    | cons p before =>
      have hlength := congrArg List.length (hletters.symm.trans hsplit)
      simp at hlength
  obtain ⟨-, sub', hx', -, hsettled⟩ := hthm.2.2 (Option.some.inj hpoll)
  exact ⟨hletters, sub, sub', hx, he, hx', (hsettled hspared 1 e he (by decide) (by decide)).1⟩

/-- A QoS1 message pushed to a slot and never acked: a second later its backoff
has long passed, the message has not expired, and the tick leaves it in flight,
with nothing waiting and nothing sent. -/
theorem pushed_left_in_flight :
    let acts : List BrokerAction := [.subscribe "c" "a" .atLeastOnce (some 1) (.slot 1) none,
      .publish 0 none ⟨none, "a", [7], .atLeastOnce⟩ none none]
    let b := ((System.new .default true).run bareExternals acts).broker
    let b' := b.maintenanceTick bareExternals (10 ^ 9) (10 ^ 9)
    let e : QueueEntry := ⟨1, [7], .atLeastOnce, none, 0, some (60 * 10 ^ 9), 1, 0⟩
    (b.subscribers.lookup 1).map (·.queue.inflight.lookup 1) = some (some e) ∧
      e.nextDeliveryAt ≤ 10 ^ 9 ∧ e.expired (10 ^ 9) = false ∧
      (b.subscribers.lookup 1).map (·.queue.retryHeap) = some [] ∧
      (b'.subscribers.lookup 1).map (·.queue.inflight.lookup 1) = some (some e) ∧
      (b'.subscribers.lookup 1).map (·.queue.waiting) = some [] ∧
      b'.slots.lookup 1 = b.slots.lookup 1 := by
  decide +kernel

end Broker

end BlipMQ.Core
