import BlipMQ.Core.Origin
import BlipMQ.Core.Retry
import Mathlib.Data.List.Induction

/-!
# Broker — delivery tags

A subscriber has two counters for tags: that of its queue, for what is
enqueued, and one for what is pushed. As long as only one of them is used,
tag `t` stands for the `t`-th message the subscriber was offered, in the
queue, in flight and with the consumer. A channel is the one kind of
subscriber that both paths can reach: publishes push to it, and the replay
of the log enqueues for it.
-/

namespace BlipMQ.Core

/-! ## Numbered messages -/

/-- The entry is about the message its tag counts to. -/
def Numbered (offered : List Offer) (e : QueueEntry) : Prop :=
  0 < e.tag ∧ ∃ o, offered[e.tag - 1]? = some o ∧ o.payload = e.payload ∧ o.walId = e.walId

theorem ofOffers_numbered : OfOffers Numbered where
  ofMessage _ _ _ _ h := h
  mono := by
    rintro offered o e ⟨hpos, o', ho', hsame⟩
    refine ⟨hpos, o', ?_, hsame⟩
    rw [List.getElem?_append_left (List.getElem?_eq_some_iff.mp ho').1]
    exact ho'

/-- The last offer has the number of all of them. -/
theorem numbered_last {offered : List Offer} {o : Offer} {e : QueueEntry}
    (htag : e.tag = offered.length + 1) (hpayload : o.payload = e.payload)
    (hid : o.walId = e.walId) : Numbered (offered ++ [o]) e := by
  refine ⟨by omega, o, ?_, hpayload, hid⟩
  rw [htag, Nat.add_sub_cancel, List.getElem?_append_right (Nat.le_refl _), Nat.sub_self]
  rfl

namespace Service

def isEnqueue : Service → Bool
  | .enqueue .. => true
  | _ => false

def isPush : Service → Bool
  | .push .. => true
  | _ => false

end Service

namespace Subscriber

variable {sub : Subscriber} {svc : Service}

/-! ## What is in flight was handed out -/

/-- The tag under which a service puts a message in flight. -/
def takesTag (sub : Subscriber) : Service → Option Nat
  | .push _ o _ _ => if o.qos = .atLeastOnce then some sub.pushNextTag else none
  | .dequeue now baseDelay => (sub.queue.dequeue now baseDelay).2.bind Prod.snd
  | _ => none

/-- A push changes what is in flight and adds to the expiration heap. -/
theorem push_queue (sub : Subscriber) (now : Nat) (o : Offer) (ttl : Option Nat) (sent : Bool) :
    ∃ inflight heap, (sub.push now o ttl sent).queue =
      { sub.queue with inflight := inflight, expirationHeap := heap } := by
  unfold push
  dsimp only
  split
  · split <;> exact ⟨_, _, rfl⟩
  · exact ⟨_, _, rfl⟩

variable {K : Subscriber → Prop} {e : QueueEntry} {ok : Service → Prop} {offered : List Offer}
  {t : Nat}

theorem inflight_push {now : Nat} {o : Offer} {ttl : Option Nat} {sent : Bool}
    (h : (sub.push now o ttl sent).queue.inflight.lookup t = some e) :
    sub.queue.inflight.lookup t = some e ∨
      t = sub.pushNextTag ∧ o.qos = .atLeastOnce ∧ sent = true ∧
        e = ⟨t, o.payload, .atLeastOnce, o.walId, now, ttl, 1, now⟩ := by
  simp only [push] at h
  split at h
  · rename_i hqos
    split at h
    · rename_i hsent
      rcases lookup_insert_eq_some.mp h with ⟨rfl, rfl⟩ | ⟨-, h⟩
      · exact .inr ⟨rfl, hqos, hsent, rfl⟩
      · exact .inl h
    · obtain ⟨hne, hpushed⟩ := lookup_erase_eq_some.mp h
      rcases lookup_insert_eq_some.mp hpushed with ⟨heq, -⟩ | ⟨-, hold⟩
      · exact absurd heq hne
      · exact .inl hold
  · exact .inl h

theorem inflight_serve (h : (sub.serve svc).queue.inflight.lookup t = some e) :
    sub.queue.inflight.lookup t = some e ∨
      ∃ out, sub.handOut svc = some out ∧ out.tag = some t ∧ out.payload = e.payload := by
  cases svc with
  | enqueue now o ttl => exact .inl h
  | push now o ttl sent =>
    rcases inflight_push h with h | ⟨rfl, hqos, rfl, rfl⟩
    · exact .inl h
    · exact .inr ⟨⟨o.topic, o.payload, some sub.pushNextTag⟩, by simp [handOut, hqos], rfl, rfl⟩
  | dequeue now baseDelay =>
    simp only [serve, handOut] at h ⊢
    rcases sub.queue.dequeue_cases now baseDelay with
      ⟨-, heq⟩ | ⟨dead, t', rest, e', -, -, -, -, heq⟩
    · rw [heq] at h
      exact .inl h
    · rw [heq] at h ⊢
      cases hqos : e'.qos with
      | atMostOnce =>
        simp only [hqos] at h
        exact .inl h
      | atLeastOnce =>
        simp only [hqos, SubscriberQueue.hold] at h ⊢
        rcases lookup_insert_eq_some.mp h with ⟨rfl, rfl⟩ | ⟨-, h⟩
        · exact .inr ⟨_, rfl, rfl, rfl⟩
        · exact .inl h
  | ack tag => exact .inl (lookup_erase_eq_some.mp h).2
  | tick now maxRetries => exact .inl (SubscriberQueue.inflight_sweep h)

/-! ## One counter -/

/-- Only the counter of the queue has been used. -/
structure QueueTagged (sub : Subscriber) : Prop where
  inv : sub.queue.Inv sub.offered.length
  stores : sub.queue.Stores (Numbered sub.offered)

/-- Only the counter for pushes has been used, so nothing waits and nothing will
be retried. -/
structure PushTagged (sub : Subscriber) : Prop where
  pushNextTag : sub.pushNextTag = (sub.offered.length + 1) % 2 ^ 64
  pending : sub.queue.pending = []
  pendingEntries : ∀ t, sub.queue.pendingEntries.lookup t = none
  retryHeap : sub.queue.retryHeap = []
  inflight : ∀ t e, sub.queue.inflight.lookup t = some e → e.tag = t ∧ t ≤ sub.offered.length
  stores : sub.queue.Stores (Numbered sub.offered)

theorem QueueTagged.new (clientId : String) (qos : QoSLevel) (capacity : Nat)
    (mode : DeliveryMode) (home : SubscriptionRef) :
    (new clientId qos capacity mode home).QueueTagged :=
  ⟨.new .., .new ..⟩

theorem PushTagged.new (clientId : String) (qos : QoSLevel) (capacity : Nat)
    (mode : DeliveryMode) (home : SubscriptionRef) :
    (new clientId qos capacity mode home).PushTagged :=
  ⟨rfl, rfl, fun _ => rfl, rfl, fun _ _ h => (nomatch h), .new ..⟩

theorem QueueTagged.serve (h : sub.QueueTagged) (hpush : svc.isPush = false)
    (hlt : (sub.serve svc).offered.length < 2 ^ 64) : (sub.serve svc).QueueTagged := by
  cases svc with
  | enqueue now o ttl =>
    have hlen : (sub.offered ++ [o]).length = sub.offered.length + 1 := by simp
    have hn : sub.offered.length + 1 < 2 ^ 64 := hlen ▸ hlt
    refine ⟨hlen.symm ▸ h.inv.enqueue hn now o.payload o.qos o.walId ttl, ?_⟩
    refine stores_serve ofOffers_numbered h.stores (.enqueue now o ttl) fun e he => ?_
    cases he
    exact numbered_last (h.inv.nextTag_eq hn) rfl rfl
  | push now o ttl sent => cases hpush
  | dequeue now baseDelay =>
    exact ⟨h.inv.dequeue now baseDelay,
      stores_serve ofOffers_numbered h.stores (.dequeue now baseDelay) fun e he => by cases he⟩
  | ack tag =>
    exact ⟨h.inv.ack tag,
      stores_serve ofOffers_numbered h.stores (.ack tag) fun e he => by cases he⟩
  | tick now maxRetries =>
    exact ⟨(h.inv.sweep now maxRetries).1,
      stores_serve ofOffers_numbered h.stores (.tick now maxRetries) fun e he => by cases he⟩

theorem PushTagged.nextTag_eq (h : sub.PushTagged) (hn : sub.offered.length + 1 < 2 ^ 64) :
    sub.pushNextTag = sub.offered.length + 1 := by
  rw [h.pushNextTag, Nat.mod_eq_of_lt hn]

theorem PushTagged.dequeue_eq (h : sub.PushTagged) {now baseDelay : Nat} :
    sub.queue.dequeue now baseDelay = ({ sub.queue with pending := [] }, none) := by
  rcases sub.queue.dequeue_cases now baseDelay with ⟨-, heq⟩ | ⟨_, _, _, _, hsplit, -⟩
  · exact heq
  · rw [h.pending] at hsplit
    simp at hsplit

/-- The tick of a queue in which nothing is to be retried. -/
theorem sweep_of_no_retries {q : SubscriberQueue} (hretry : q.retryHeap = [])
    (now maxRetries : Nat) :
    (q.sweep now maxRetries).1.pending = q.pending ∧
      (∀ t e, (q.sweep now maxRetries).1.pendingEntries.lookup t = some e →
        q.pendingEntries.lookup t = some e) ∧
      (q.sweep now maxRetries).1.retryHeap = [] := by
  have hexpires := SubscriberQueue.expireLoop_expires q now
  have hentries : ∀ t e, (SubscriberQueue.expireLoop now q).1.pendingEntries.lookup t = some e →
      q.pendingEntries.lookup t = some e := by
    rw [SubscriberQueue.expireLoop_foldl]
    refine List.foldlRecOn (motive := fun s : SubscriberQueue.Sweep =>
      ∀ t e, s.1.pendingEntries.lookup t = some e → q.pendingEntries.lookup t = some e) _ _
      (fun _ _ h => h) fun s hs x _ t e => ?_
    unfold SubscriberQueue.expireOne
    split
    · split
      · exact fun hl => hs t e (lookup_erase_eq_some.mp hl).2
      · exact hs t e
    · split
      · split <;> exact hs t e
      · exact hs t e
  have hretry' : (SubscriberQueue.expireLoop now q).1.retryHeap = [] :=
    hexpires.retryHeap.trans hretry
  have hdue : (SubscriberQueue.expireLoop now q).1.dueRetries now = [] := by
    simp [SubscriberQueue.dueRetries, Heap.dueItems, hretry']
  rw [SubscriberQueue.sweep, SubscriberQueue.retryLoop_foldl, hdue]
  exact ⟨hexpires.pending, hentries, by simp [hretry']⟩

theorem PushTagged.serve (h : sub.PushTagged) (henqueue : svc.isEnqueue = false)
    (hlt : (sub.serve svc).offered.length < 2 ^ 64) : (sub.serve svc).PushTagged := by
  cases svc with
  | enqueue now o ttl => cases henqueue
  | push now o ttl sent =>
    have hlen : (sub.offered ++ [o]).length = sub.offered.length + 1 := by simp
    have hn : sub.offered.length + 1 < 2 ^ 64 := hlen ▸ hlt
    have htag := h.nextTag_eq hn
    have hstores := stores_serve ofOffers_numbered h.stores (.push now o ttl sent) fun e he => by
      cases he
      exact numbered_last htag rfl rfl
    have hinflight : ∀ t e, (sub.push now o ttl sent).queue.inflight.lookup t = some e →
        e.tag = t ∧ t ≤ (sub.offered ++ [o]).length := by
      intro t e hl
      rcases inflight_push hl with hl | ⟨rfl, -, -, rfl⟩
      · obtain ⟨hkey, hle⟩ := h.inflight t e hl
        exact ⟨hkey, by omega⟩
      · exact ⟨rfl, by omega⟩
    obtain ⟨inflight, heap, hqueue⟩ := push_queue sub now o ttl sent
    have hnext : (sub.pushNextTag + 1) % 2 ^ 64 = ((sub.offered ++ [o]).length + 1) % 2 ^ 64 := by
      rw [htag, hlen]
    refine ⟨hnext, ?_, ?_, ?_, hinflight, hstores⟩
    · exact (congrArg SubscriberQueue.pending hqueue).trans h.pending
    · intro t
      exact (congrArg (fun q => AList.lookup t q.pendingEntries) hqueue).trans (h.pendingEntries t)
    · exact (congrArg SubscriberQueue.retryHeap hqueue).trans h.retryHeap
  | dequeue now baseDelay =>
    rw [Subscriber.serve, h.dequeue_eq]
    exact ⟨h.pushNextTag, rfl, h.pendingEntries, h.retryHeap, h.inflight,
      ⟨h.stores.pending, h.stores.inflight⟩⟩
  | ack tag =>
    exact ⟨h.pushNextTag, h.pending, h.pendingEntries, h.retryHeap,
      forall_lookup_erase h.inflight tag, h.stores.eraseInflight tag⟩
  | tick now maxRetries =>
    obtain ⟨hpending, hkept, hretry⟩ := sweep_of_no_retries h.retryHeap now maxRetries
    have hentries : ∀ t, (sub.queue.sweep now maxRetries).1.pendingEntries.lookup t = none := by
      intro t
      refine Option.eq_none_iff_forall_ne_some.mpr fun e he => ?_
      exact absurd ((hkept t e he).symm.trans (h.pendingEntries t)) (Option.some_ne_none e)
    exact ⟨h.pushNextTag, hpending.trans h.pending, hentries, hretry,
      fun t e hl => h.inflight t e (SubscriberQueue.inflight_sweep hl),
      stores_serve ofOffers_numbered h.stores (.tick now maxRetries) fun e he => by cases he⟩

/-! ## Tags identify deliveries -/

/-- Offer number `t` has this payload. -/
def OfferNumber (offered : List Offer) (t : Nat) (payload : Bytes) : Prop :=
  0 < t ∧ ∃ o, offered[t - 1]? = some o ∧ o.payload = payload

theorem OfferNumber.unique {payload payload' : Bytes} (h : OfferNumber offered t payload)
    (h' : OfferNumber offered t payload') : payload = payload' := by
  obtain ⟨-, o, ho, rfl⟩ := h
  obtain ⟨-, o', ho', rfl⟩ := h'
  rw [ho] at ho'
  cases ho'
  rfl

theorem offerNumber_of_numbered (h : Numbered offered e) : OfferNumber offered e.tag e.payload := by
  obtain ⟨hpos, o, ho, hpayload, -⟩ := h
  exact ⟨hpos, o, ho, hpayload⟩

/-- What is stored stands under its tag, in one place; each tag is the number of
an offer, and what is in flight under a tag was handed out under it. -/
structure Identified (sub : Subscriber) (handed : List HandOut) : Prop where
  distinct : ∀ t, sub.queue.pendingEntries.lookup t = none ∨ sub.queue.inflight.lookup t = none
  pending : ∀ t e, sub.queue.pendingEntries.lookup t = some e →
    e.tag = t ∧ Numbered sub.offered e
  inflight : ∀ t e, sub.queue.inflight.lookup t = some e →
    e.tag = t ∧ Numbered sub.offered e ∧ ∃ h ∈ handed, h.tag = some t ∧ h.payload = e.payload
  handed : ∀ h ∈ handed, ∀ t, h.tag = some t → OfferNumber sub.offered t h.payload

/-- A kind of subscribers that use one counter: what they are like, and the
services they get. -/
structure CounterRule (K : Subscriber → Prop) (ok : Service → Prop) : Prop where
  serve : ∀ {sub svc}, K sub → ok svc → (sub.serve svc).offered.length < 2 ^ 64 → K (sub.serve svc)
  stored : ∀ {sub}, K sub → sub.queue.Disjoint ∧ sub.queue.Stores (Numbered sub.offered) ∧
    (∀ t e, sub.queue.pendingEntries.lookup t = some e → e.tag = t) ∧
    ∀ t e, sub.queue.inflight.lookup t = some e → e.tag = t
  handed : ∀ {sub svc out t}, K sub → ok svc → (sub.serve svc).offered.length < 2 ^ 64 →
    sub.handOut svc = some out → out.tag = some t →
    OfferNumber (sub.serve svc).offered t out.payload
  free : ∀ {sub svc t}, K sub → ok svc → (sub.serve svc).offered.length < 2 ^ 64 →
    sub.takesTag svc = some t → sub.queue.inflight.lookup t = none

theorem queueRule : CounterRule QueueTagged fun svc => svc.isPush = false where
  serve := QueueTagged.serve
  stored h := ⟨h.inv.disjoint, h.stores, fun t e hl => (h.inv.pendingEntries t e hl).1,
    fun t e hl => (h.inv.inflight t e hl).1⟩
  handed {sub svc out t} h hok hlt hout ht := by
    cases svc with
    | push now o ttl sent => cases hok
    | dequeue now baseDelay =>
      rcases sub.queue.dequeue_cases now baseDelay with
        ⟨-, heq⟩ | ⟨dead, t', rest, e, -, -, hl, -, heq⟩
      · simp [handOut, heq] at hout
      · have hnumbered := offerNumber_of_numbered (h.stores.pending t' e hl)
        cases hqos : e.qos with
        | atMostOnce =>
          simp only [handOut, heq, hqos, Option.map_some, Option.some.injEq] at hout
          subst hout
          cases ht
        | atLeastOnce =>
          simp only [handOut, heq, hqos, Option.map_some, Option.some.injEq] at hout
          subst hout
          cases ht
          exact hnumbered
    | _ => cases hout
  free {sub svc t} h hok hlt htakes := by
    cases svc with
    | push now o ttl sent => cases hok
    | dequeue now baseDelay =>
      rcases sub.queue.dequeue_cases now baseDelay with
        ⟨-, heq⟩ | ⟨dead, t', rest, e, -, -, hl, -, heq⟩
      · simp [takesTag, heq] at htakes
      · cases hqos : e.qos with
        | atMostOnce => simp [takesTag, heq, hqos] at htakes
        | atLeastOnce =>
          simp only [takesTag, heq, hqos, Option.bind_some, Option.some.injEq] at htakes
          subst htakes
          rw [(h.inv.pendingEntries t' e hl).1]
          exact (h.inv.disjoint t').resolve_left (by simp [hl])
    | _ => cases htakes

theorem pushRule : CounterRule PushTagged fun svc => svc.isEnqueue = false where
  serve := PushTagged.serve
  stored h := ⟨fun t => .inl (h.pendingEntries t), h.stores,
    fun t e hl => absurd hl (by simp [h.pendingEntries t]), fun t e hl => (h.inflight t e hl).1⟩
  handed {sub svc out t} h hok hlt hout ht := by
    cases svc with
    | enqueue now o ttl => cases hok
    | push now o ttl sent =>
      simp only [handOut, Option.ite_none_right_eq_some, Option.some.injEq] at hout
      obtain ⟨-, rfl⟩ := hout
      obtain ⟨-, hnext⟩ := (Option.ite_none_right_eq_some ..).mp ht
      cases hnext
      have htag := h.nextTag_eq (by simpa [Subscriber.serve, push] using hlt)
      exact offerNumber_of_numbered (e := ⟨sub.pushNextTag, o.payload, .atLeastOnce, o.walId, now,
        ttl, 1, now⟩) (numbered_last htag rfl rfl)
    | dequeue now baseDelay =>
      rw [handOut, h.dequeue_eq] at hout
      cases hout
    | _ => cases hout
  free {sub svc t} h hok hlt htakes := by
    cases svc with
    | enqueue now o ttl => cases hok
    | push now o ttl sent =>
      obtain ⟨-, htag⟩ := (Option.ite_none_right_eq_some ..).mp htakes
      cases htag
      rw [h.nextTag_eq (by simpa [Subscriber.serve, push] using hlt)]
      cases hl : sub.queue.inflight.lookup (sub.offered.length + 1) with
      | none => rfl
      | some e =>
        have hle := (h.inflight _ e hl).2
        omega
    | dequeue now baseDelay =>
      rw [takesTag, h.dequeue_eq] at htakes
      cases htakes
    | _ => cases htakes

/-! ## Whole lives -/

theorem OfferNumber.mono {offered' : List Offer} {payload : Bytes}
    (h : OfferNumber offered t payload) (hgrows : offered <+: offered') :
    OfferNumber offered' t payload := by
  obtain ⟨hpos, o, ho, hpayload⟩ := h
  obtain ⟨more, rfl⟩ := hgrows
  refine ⟨hpos, o, ?_, hpayload⟩
  rw [List.getElem?_append_left (List.getElem?_eq_some_iff.mp ho).1]
  exact ho

/-- Offers are only added. -/
theorem offered_prefix_serve (sub : Subscriber) (svc : Service) :
    sub.offered <+: (sub.serve svc).offered := by
  rw [offered_serve]
  exact List.prefix_append ..

theorem handOuts_snoc (sub : Subscriber) (svcs : List Service) (svc : Service) :
    sub.handOuts (svcs ++ [svc]) =
      sub.handOuts svcs ++ ((sub.serveAll svcs).handOut svc).toList := by
  rw [handOuts, emitted_append]
  simp [emitted, handOuts, serveAll]

/-- The step from one service to the next. -/
theorem CounterRule.step (hK : CounterRule K ok) {handed : List HandOut} (h : K sub)
    (hid : sub.Identified handed) (hok : ok svc) (hlt : (sub.serve svc).offered.length < 2 ^ 64) :
    (sub.serve svc).Identified (handed ++ (sub.handOut svc).toList) := by
  obtain ⟨hdisj, hstores, hpending, hinflight⟩ := hK.stored (hK.serve h hok hlt)
  refine ⟨hdisj, fun t e hl => ⟨hpending t e hl, hstores.pending t e hl⟩, ?_, ?_⟩
  · intro t e hl
    refine ⟨hinflight t e hl, hstores.inflight t e hl, ?_⟩
    rcases inflight_serve hl with hl | ⟨out, hout, ht, hpayload⟩
    · obtain ⟨-, -, out, hmem, hsame⟩ := hid.inflight t e hl
      exact ⟨out, List.mem_append_left _ hmem, hsame⟩
    · exact ⟨out, List.mem_append_right _ (by simp [hout]), ht, hpayload⟩
  · intro out hmem t ht
    rcases List.mem_append.mp hmem with hmem | hmem
    · exact (hid.handed out hmem t ht).mono (sub.offered_prefix_serve svc)
    · exact hK.handed h hok hlt (Option.mem_toList.mp hmem) ht

theorem CounterRule.identified (hK : CounterRule K ok) {sub₀ : Subscriber} (h₀ : K sub₀)
    (hid : sub₀.Identified []) (svcs : List Service) (hok : ∀ svc ∈ svcs, ok svc)
    (hlt : (sub₀.serveAll svcs).offered.length < 2 ^ 64) :
    K (sub₀.serveAll svcs) ∧ (sub₀.serveAll svcs).Identified (sub₀.handOuts svcs) := by
  induction svcs using List.reverseRecOn with
  | nil => exact ⟨h₀, hid⟩
  | append_singleton svcs svc ih =>
    rw [serveAll_append] at hlt ⊢
    have hshorter := (((sub₀.serveAll svcs).offered_prefix_serve svc).length_le).trans_lt hlt
    obtain ⟨hsub, hbefore⟩ := ih (fun svc' hmem => hok svc' (by simp [hmem])) hshorter
    have hsvc := hok svc (by simp)
    refine ⟨hK.serve hsub hsvc hlt, ?_⟩
    rw [handOuts_snoc]
    exact hK.step hsub hbefore hsvc hlt

theorem identified_new (clientId : String) (qos : QoSLevel) (capacity : Nat)
    (mode : DeliveryMode) (home : SubscriptionRef) :
    (new clientId qos capacity mode home).Identified [] :=
  ⟨fun _ => .inl rfl, fun _ _ h => (nomatch h), fun _ _ h => (nomatch h), List.forall_mem_nil _⟩

/-- The tags of these services come from one counter. -/
def OneCounter (svcs : List Service) : Prop :=
  (∀ svc ∈ svcs, svc.isPush = false) ∨ ∀ svc ∈ svcs, svc.isEnqueue = false

/-- What an ack takes out of flight is what was handed out under its tag. -/
structure AcksHanded (sub : Subscriber) (handed : List HandOut) (t : Nat) (e : QueueEntry) :
    Prop where
  removed : (sub.serve (.ack t)).queue =
    { sub.queue with inflight := sub.queue.inflight.erase t }
  found : ∃ h ∈ handed, h.tag = some t
  same : ∀ h ∈ handed, h.tag = some t → h.payload = e.payload

theorem Identified.acksHanded {handed : List HandOut} (h : sub.Identified handed)
    (he : sub.queue.inflight.lookup t = some e) : sub.AcksHanded handed t e := by
  obtain ⟨rfl, hnumbered, out, hout, ht, -⟩ := h.inflight t e he
  refine ⟨rfl, ⟨out, hout, ht⟩, ?_⟩
  intro out' hout' ht'
  exact (h.handed out' hout' e.tag ht').unique (offerNumber_of_numbered hnumbered)

/-- At every moment of these services each tag stands for one message: whatever is
stored or was handed out under it is the same offer, a message is put in flight
only under a tag that is free there, and an ack removes what was handed out
under its tag. -/
structure TagsIdentify (sub₀ : Subscriber) (svcs : List Service) : Prop where
  identified : ∀ before after, svcs = before ++ after →
    (sub₀.serveAll before).Identified (sub₀.handOuts before)
  free : ∀ before svc after t, svcs = before ++ svc :: after →
    (sub₀.serveAll before).takesTag svc = some t →
    (sub₀.serveAll before).queue.inflight.lookup t = none
  acked : ∀ before t after e, svcs = before ++ .ack t :: after →
    (sub₀.serveAll before).queue.inflight.lookup t = some e →
    (sub₀.serveAll before).AcksHanded (sub₀.handOuts before) t e

theorem CounterRule.tagsIdentify (hK : CounterRule K ok) {sub₀ : Subscriber} (h₀ : K sub₀)
    (hid : sub₀.Identified []) {svcs : List Service} (hok : ∀ svc ∈ svcs, ok svc)
    (hlt : (sub₀.serveAll svcs).offered.length < 2 ^ 64) : sub₀.TagsIdentify svcs := by
  have hgrows : ∀ (svcs : List Service) (sub : Subscriber),
      sub.offered.length ≤ (sub.serveAll svcs).offered.length := by
    intro svcs
    induction svcs with
    | nil => exact fun _ => Nat.le_refl _
    | cons svc svcs ih => exact fun sub => (sub.offered_prefix_serve svc).length_le.trans (ih _)
  have hmoment : ∀ before after, svcs = before ++ after → K (sub₀.serveAll before) ∧
      (sub₀.serveAll before).Identified (sub₀.handOuts before) := by
    rintro before after rfl
    rw [serveAll_append] at hlt
    exact hK.identified h₀ hid before (fun svc hmem => hok svc (by simp [hmem]))
      ((hgrows ..).trans_lt hlt)
  refine ⟨fun before after heq => (hmoment before after heq).2, ?_, ?_⟩
  · intro before svc after t heq htakes
    have hsub := (hmoment before (svc :: after) heq).1
    subst heq
    rw [serveAll_append] at hlt
    exact hK.free hsub (hok svc (by simp)) ((hgrows after _).trans_lt hlt) htakes
  · intro before t after e heq he
    exact (hmoment before (.ack t :: after) heq).2.acksHanded he

end Subscriber

/-- Nothing is enqueued for a subscriber on a slot. -/
theorem Subscriber.Fits.isEnqueue_of_slot {sub : Subscriber} {svc : Service} (h : sub.Fits svc)
    {slot : Nat} (hmode : sub.mode = .slot slot) : svc.isEnqueue = false := by
  cases svc with
  | enqueue now o ttl => exact absurd hmode (h slot)
  | _ => rfl

/-- The tags of a subscriber on a slot come from the counter for pushes. -/
theorem System.pushTagged_run (E : Externals) (config : BrokerConfig) (hasWal : Bool)
    (acts : List BrokerAction) {x slot : Nat} {sub : Subscriber}
    (hx : ((System.new config hasWal).run E acts).broker.subscribers.lookup x = some sub)
    (hmode : sub.mode = .slot slot) (hlt : sub.offered.length < 2 ^ 64) : sub.PushTagged := by
  have hlives := lives_run E config hasWal acts
  obtain ⟨clientId, qos, capacity, mode, home, hlife⟩ := hlives.life x sub hx
  have hok : ∀ svc ∈ servicesOf x ((System.new config hasWal).services E acts),
      svc.isEnqueue = false := fun svc hmem => (hlives.fit hx hmem).isEnqueue_of_slot hmode
  rw [hlife] at hlt ⊢
  exact (Subscriber.pushRule.identified (.new ..) (Subscriber.identified_new ..) _ hok hlt).1

/-- **A tag identifies one delivery as long as one counter gives the tags**, which
is so for all subscribers but channels. -/
theorem System.tags_identify_deliveries (E : Externals) (config : BrokerConfig) (hasWal : Bool)
    (acts : List BrokerAction) (x : Nat) (sub : Subscriber)
    (hx : ((System.new config hasWal).run E acts).broker.subscribers.lookup x = some sub)
    (hlt : sub.offered.length < 2 ^ 64) :
    let svcs := servicesOf x ((System.new config hasWal).services E acts)
    ∃ clientId qos capacity home,
      let sub₀ := Subscriber.new clientId qos capacity sub.mode home
      sub = sub₀.serveAll svcs ∧
      ((∀ c, sub.mode ≠ .channel c) → Subscriber.OneCounter svcs) ∧
      (Subscriber.OneCounter svcs → sub₀.TagsIdentify svcs) := by
  intro svcs
  have hlives := lives_run E config hasWal acts
  obtain ⟨clientId, qos, capacity, mode, home, hlife⟩ := hlives.life x sub hx
  have hmode : mode = sub.mode := by rw [hlife, Subscriber.mode_serveAll]; rfl
  subst hmode
  have hfits : ∀ svc ∈ svcs, sub.Fits svc := fun svc hmem => hlives.fit hx hmem
  refine ⟨clientId, qos, capacity, home, hlife, ?_, ?_⟩
  · intro hchannel
    cases hm : sub.mode with
    | poll =>
      refine .inl fun svc hmem => ?_
      cases svc with
      | push now o ttl sent => exact absurd hm (hfits _ hmem)
      | _ => rfl
    | channel c => exact absurd hm (hchannel c)
    | slot n => exact .inr fun svc hmem => (hfits svc hmem).isEnqueue_of_slot hm
  · rw [hlife] at hlt
    rintro (hone | hone)
    · exact Subscriber.queueRule.tagsIdentify (.new ..) (Subscriber.identified_new ..) hone hlt
    · exact Subscriber.pushRule.tagsIdentify (.new ..) (Subscriber.identified_new ..) hone hlt

/-- Two messages for a subscriber that polls; the first is handed out. -/
theorem System.tags_identify_deliveries_polled :
    let acts : List BrokerAction := [.subscribe "c" "a" .atLeastOnce none .poll none,
      .publish 0 none ⟨none, "a", [1], .atLeastOnce⟩ none none,
      .publish 0 none ⟨none, "a", [2], .atLeastOnce⟩ none none, .poll 0 1]
    let svcs := servicesOf 1 ((System.new .default true).services bareExternals acts)
    ∃ sub, ((System.new .default true).run bareExternals acts).broker.subscribers.lookup 1 =
        some sub ∧ sub.mode = .poll ∧ sub.offered.length = 2 ∧
      ∃ clientId qos capacity home,
        (Subscriber.new clientId qos capacity sub.mode home).TagsIdentify svcs := by
  intro acts svcs
  obtain ⟨sub, hx, hmode, hlen⟩ : ∃ sub, ((System.new .default true).run bareExternals
      acts).broker.subscribers.lookup 1 = some sub ∧ sub.mode = .poll ∧
        sub.offered.length = 2 := by decide +kernel
  obtain ⟨clientId, qos, capacity, home, -, hone, hidentify⟩ :=
    System.tags_identify_deliveries bareExternals .default true acts 1 sub hx (by omega)
  exact ⟨sub, hx, hmode, hlen, clientId, qos, capacity, home,
    hidentify (hone fun c => by simp [hmode])⟩

/-- **Two messages share a tag**: `[1]` is pushed to a channel under tag 1, then
the replay enqueues `[2]` under tag 1. A poll puts `[2]` in flight in the place
of `[1]`, and both have been handed out under tag 1. -/
theorem channel_tag_shared :
    let acts : List BrokerAction := [.subscribe "c" "a" .atLeastOnce (some 1) (.channel 1) none,
      .buffers ∅ ((∅ : AList fun _ : Nat => Channel).insert 1 ⟨8, true, []⟩),
      .publish 0 none ⟨none, "a", [1], .atLeastOnce⟩ none none,
      .replayFromWal 0 (.ofEntries [.message ⟨"a", .atLeastOnce, [2]⟩]) none]
    let stored := fun (s : System) => (s.broker.subscribers.lookup 1).map fun sub =>
      ((sub.queue.pendingEntries.lookup 1).map QueueEntry.payload,
        (sub.queue.inflight.lookup 1).map QueueEntry.payload)
    stored ((System.new .default true).run bareExternals acts) = some (some [2], some [1]) ∧
      stored ((System.new .default true).run bareExternals (acts ++ [.poll 0 1])) =
        some (none, some [2]) ∧
      (Subscriber.new "c" .atLeastOnce 1024 (.channel 1) ⟨"a", none⟩).handOuts (servicesOf 1
          ((System.new .default true).services bareExternals (acts ++ [.poll 0 1]))) =
        [⟨"a", [1], some 1⟩, ⟨"a", [2], some 1⟩] := by
  decide +kernel

end BlipMQ.Core
