import BlipMQ.Core.Scan
import BlipMQ.Core.Service

/-!
# Broker — where stored messages come from

Whatever a subscriber stores, hands out or drops is a message it was
offered, and each call offers only what it was called with: a publish its
message, the replay of a record the message of the record. Beside the state
this module keeps what a subscriber hands to its consumer, one service after
the other.
-/

namespace BlipMQ.Core

open Wal (WalRecord)

/-! ## The tick -/

namespace SubscriberQueue

section Tick

variable {R : QueueEntry → Prop}

/-- A queue during the tick: what it stores and what it has dropped has `R`. -/
structure Sweeps (R : QueueEntry → Prop) (s : Sweep) : Prop where
  stores : s.1.Stores R
  dropped : ∀ d ∈ s.2, R d.1

theorem Sweeps.expireOne {s : Sweep} (h : Sweeps R s) (x : ExpirationEntry) :
    Sweeps R (expireOne s x) := by
  unfold SubscriberQueue.expireOne
  split
  · rename_i e hl
    split
    · exact ⟨⟨forall_lookup_erase h.stores.pending _, h.stores.inflight⟩,
        forall_mem_concat h.dropped (h.stores.pending _ e hl)⟩
    · exact h
  · split
    · rename_i e hl
      split
      · exact ⟨⟨h.stores.pending, forall_lookup_erase h.stores.inflight _⟩,
          forall_mem_concat h.dropped (h.stores.inflight _ e hl)⟩
      · exact h
    · exact h

theorem Sweeps.retryOne (hR : OfMessage R) {s : Sweep} (h : Sweeps R s) (now maxRetries : Nat)
    (x : RetryEntry) : Sweeps R (retryOne now maxRetries s x) := by
  unfold SubscriberQueue.retryOne
  split
  · exact h
  · rename_i e hl
    have he : R e := h.stores.inflight _ e hl
    have herased := forall_lookup_erase h.stores.inflight x.tag
    split
    · exact h
    · split
      · exact ⟨⟨h.stores.pending, herased⟩, forall_mem_concat h.dropped he⟩
      · exact ⟨⟨forall_lookup_insert h.stores.pending (hR e _ _ he), herased⟩, h.dropped⟩

/-- The tick stores and drops what was stored. -/
theorem Stores.sweep (hR : OfMessage R) {q : SubscriberQueue} (h : q.Stores R)
    (now maxRetries : Nat) : Sweeps R (q.sweep now maxRetries) := by
  have hstart : Sweeps R (q, []) := ⟨h, List.forall_mem_nil _⟩
  have hexpire : Sweeps R (expireLoop now q) := by
    rw [expireLoop_foldl]
    have hfold := List.foldlRecOn (motive := Sweeps R) (q.dueExpirations now) _ hstart
      fun s hs x _ => hs.expireOne x
    exact ⟨⟨hfold.stores.pending, hfold.stores.inflight⟩, hfold.dropped⟩
  unfold SubscriberQueue.sweep
  rw [retryLoop_foldl]
  have hfold := List.foldlRecOn (motive := Sweeps R) ((expireLoop now q).1.dueRetries now) _
    hexpire fun s hs x _ => hs.retryOne hR now maxRetries x
  exact ⟨⟨hfold.stores.pending, hfold.stores.inflight⟩, hfold.dropped⟩

/-- The tick puts nothing in flight. -/
theorem inflight_sweep {q : SubscriberQueue} {now maxRetries t : Nat} {e : QueueEntry}
    (h : (q.sweep now maxRetries).1.inflight.lookup t = some e) :
    q.inflight.lookup t = some e := by
  have hexpire : (expireLoop now q).1.inflight.lookup t = some e →
      q.inflight.lookup t = some e := by
    rw [expireLoop_foldl]
    refine List.foldlRecOn (motive := fun s : Sweep =>
      s.1.inflight.lookup t = some e → q.inflight.lookup t = some e) _ _ id fun s hs x _ => ?_
    unfold expireOne
    split
    · split <;> exact hs
    · split
      · split
        · exact fun hl => hs (lookup_erase_eq_some.mp hl).2
        · exact hs
      · exact hs
  unfold sweep at h
  rw [retryLoop_foldl] at h
  revert h
  refine List.foldlRecOn (motive := fun s : Sweep =>
    s.1.inflight.lookup t = some e → q.inflight.lookup t = some e) _ _ hexpire fun s hs x _ => ?_
  unfold retryOne
  split
  · exact hs
  · split
    · exact hs
    · split <;> exact fun hl => hs (lookup_erase_eq_some.mp hl).2

end Tick

end SubscriberQueue

/-! ## What a subscriber stores -/

open SubscriberQueue (OfMessage)

/-- A property of messages that more offers do not take away. -/
structure OfOffers (R : List Offer → QueueEntry → Prop) : Prop where
  ofMessage : ∀ offered, OfMessage (R offered)
  mono : ∀ offered o e, R offered e → R (offered ++ [o]) e

/-- The message of the entry was offered. -/
def OfferedIn (offered : List Offer) (e : QueueEntry) : Prop :=
  ∃ o ∈ offered, o.payload = e.payload ∧ o.walId = e.walId

theorem ofOffers_offeredIn : OfOffers OfferedIn where
  ofMessage _ _ _ _ h := h
  mono := by
    rintro offered o e ⟨o', ho', hsame⟩
    exact ⟨o', List.mem_append_left _ ho', hsame⟩

namespace Subscriber

/-- The entry a service brings in. -/
def arrival (sub : Subscriber) : Service → Option QueueEntry
  | .enqueue now o ttl => some (sub.queue.arrival now o.payload o.qos o.walId ttl)
  | .push now o ttl _ =>
    some ⟨sub.pushNextTag, o.payload, .atLeastOnce, o.walId, now, ttl, 1, now⟩
  | _ => none

/-- The entry a service stores, and the message it is made for. A push at QoS 0
stores nothing. -/
def stored (sub : Subscriber) : Service → Option (Offer × QueueEntry)
  | .enqueue now o ttl => some (o, sub.queue.arrival now o.payload o.qos o.walId ttl)
  | .push now o ttl _ =>
    if o.qos = .atLeastOnce then
      some (o, ⟨sub.pushNextTag, o.payload, .atLeastOnce, o.walId, now, ttl, 1, now⟩)
    else none
  | _ => none

variable {sub : Subscriber} {e : QueueEntry} {svc : Service}

/-- An entry is stored for a message that is enqueued, or pushed at QoS 1. -/
theorem stored_cases {o : Offer} (h : sub.stored svc = some (o, e)) :
    (∃ now ttl, svc = .enqueue now o ttl ∧
        e = sub.queue.arrival now o.payload o.qos o.walId ttl) ∨
      ∃ now ttl sent, svc = .push now o ttl sent ∧ o.qos = .atLeastOnce ∧
        e = ⟨sub.pushNextTag, o.payload, .atLeastOnce, o.walId, now, ttl, 1, now⟩ := by
  cases svc with
  | enqueue now o' ttl =>
    cases h
    exact .inl ⟨now, ttl, rfl, rfl⟩
  | push now o' ttl sent =>
    unfold stored at h
    obtain ⟨hqos, ⟨⟩⟩ := Option.ite_none_right_eq_some.mp h
    exact .inr ⟨now, ttl, sent, rfl, hqos, rfl⟩
  | _ => cases h

theorem arrival_of_stored {o : Offer} (h : sub.stored svc = some (o, e)) :
    sub.arrival svc = some e := by
  rcases stored_cases h with ⟨now, ttl, rfl, rfl⟩ | ⟨now, ttl, sent, rfl, -, rfl⟩ <;> rfl

/-- A property of messages holds of what is stored after a service if it held of
what was stored before and holds of what the service stores. -/
theorem stores_of_stored {R : QueueEntry → Prop} (hR : OfMessage R) (h : sub.queue.Stores R)
    (svc : Service) (hstored : ∀ o e, sub.stored svc = some (o, e) → R e) :
    (sub.serve svc).queue.Stores R := by
  cases svc with
  | enqueue now o ttl => exact SubscriberQueue.Stores.enqueue h (hstored _ _ rfl)
  | push now o ttl sent =>
    show (if o.qos = .atLeastOnce then _ else _ : SubscriberQueue).Stores _
    by_cases hqos : o.qos = .atLeastOnce
    · rw [if_pos hqos]
      have hpushed := h.registerPushInflight (hstored _ _ (if_pos hqos))
      split
      · exact hpushed
      · exact hpushed.eraseInflight _
    · rw [if_neg hqos]
      exact h
  | dequeue now baseDelay => exact (h.dequeue hR now baseDelay).1
  | ack tag => exact h.eraseInflight tag
  | tick now maxRetries => exact (h.sweep hR now maxRetries).stores

variable {R : List Offer → QueueEntry → Prop}

theorem stores_serve (hR : OfOffers R) (h : sub.queue.Stores (R sub.offered)) (svc : Service)
    (harrival : ∀ e, sub.arrival svc = some e → R (sub.serve svc).offered e) :
    (sub.serve svc).queue.Stores (R (sub.serve svc).offered) := by
  have hgrown : sub.queue.Stores (R (sub.serve svc).offered) := by
    cases svc with
    | enqueue now o ttl => exact h.mono (hR.mono sub.offered o)
    | push now o ttl sent => exact h.mono (hR.mono sub.offered o)
    | _ => exact h
  exact stores_of_stored (hR.ofMessage _) hgrown svc fun _ e he => harrival e (arrival_of_stored he)

theorem offeredIn_arrival (h : sub.arrival svc = some e) : OfferedIn (sub.serve svc).offered e := by
  cases svc with
  | enqueue now o ttl =>
    cases h
    exact ⟨o, List.mem_append_right _ (List.mem_singleton_self o), rfl, rfl⟩
  | push now o ttl sent =>
    cases h
    exact ⟨o, List.mem_append_right _ (List.mem_singleton_self o), rfl, rfl⟩
  | _ => cases h

/-- Everything stored was offered. -/
theorem offered_rule : SubscriberRule fun sub => sub.queue.Stores (OfferedIn sub.offered) where
  new _ _ _ _ _ := .new ..
  serve _ svc _ h := stores_serve ofOffers_offeredIn h svc fun _ => offeredIn_arrival

end Subscriber

/-! ## What a call brings in -/

/-- The queue stores this message, to be handed out or in flight. -/
def SubscriberQueue.Carries (q : SubscriberQueue) (payload : Bytes) (walId : Option Nat) : Prop :=
  ∃ tag e, (q.pendingEntries.lookup tag = some e ∨ q.inflight.lookup tag = some e) ∧
    e.payload = payload ∧ e.walId = walId

theorem SubscriberQueue.stores_iff_carries {q : SubscriberQueue}
    {P : Bytes → Option Nat → Prop} : q.Stores (fun e => P e.payload e.walId) ↔
      ∀ payload walId, q.Carries payload walId → P payload walId := by
  constructor
  · rintro h payload walId ⟨tag, e, he | he, rfl, rfl⟩
    · exact h.pending tag e he
    · exact h.inflight tag e he
  · intro h
    exact ⟨fun tag e he => h _ _ ⟨tag, e, .inl he, rfl, rfl⟩,
      fun tag e he => h _ _ ⟨tag, e, .inr he, rfl, rfl⟩⟩

/-- The message a service brings. -/
def Service.offer? : Service → Option Offer
  | .enqueue _ o _ => some o
  | .push _ o _ _ => some o
  | _ => none

theorem Subscriber.offered_serve (sub : Subscriber) (svc : Service) :
    (sub.serve svc).offered = sub.offered ++ svc.offer?.toList := by
  cases svc with
  | enqueue now o ttl => rfl
  | push now o ttl sent => rfl
  | _ => exact (List.append_nil _).symm

theorem Subscriber.offered_serveAll (sub : Subscriber) (svcs : List Service) :
    (sub.serveAll svcs).offered = sub.offered ++ svcs.filterMap Service.offer? := by
  induction svcs generalizing sub with
  | nil => exact (List.append_nil _).symm
  | cons svc svcs ih =>
    rw [serveAll_cons, ih, offered_serve, List.append_assoc]
    cases h : svc.offer? <;> simp [h]

/-- All messages these services bring have `P`. -/
def OnlyOffers (P : Offer → Prop) (svcs : List (Nat × Service)) : Prop :=
  ∀ x svc o, (x, svc) ∈ svcs → svc.offer? = some o → P o

namespace OnlyOffers

variable {P Q : Offer → Prop} {svcs svcs' : List (Nat × Service)}

theorem nil : OnlyOffers P [] := fun _ _ _ h => absurd h List.not_mem_nil

theorem single {x : Nat} {svc : Service} (h : ∀ o, svc.offer? = some o → P o) :
    OnlyOffers P [(x, svc)] := by
  intro y svc' o hmem ho
  cases List.mem_singleton.mp hmem
  exact h o ho

theorem append (h : OnlyOffers P svcs) (h' : OnlyOffers P svcs') :
    OnlyOffers P (svcs ++ svcs') := by
  intro x svc o hmem ho
  rcases List.mem_append.mp hmem with hmem | hmem
  · exact h x svc o hmem ho
  · exact h' x svc o hmem ho

theorem fold {σ ι : Type*} {f : σ → ι → σ} {out : σ → ι → List (Nat × Service)} {s : σ}
    {inputs : List ι} (h : ∀ t i, i ∈ inputs → OnlyOffers P (out t i)) :
    OnlyOffers P (emitted f out s inputs) := by
  intro x svc o hmem ho
  obtain ⟨t, i, hi, hw⟩ := mem_emitted hmem
  exact h t i hi x svc o hw ho

end OnlyOffers

namespace Broker

section Brings

variable {E : Externals} {P : Offer → Prop} {o : Offer}

theorem deliverServices_offers (ho : P o) (b : Broker) (now : Nat) (ttl : Option Nat) (x : Nat) :
    OnlyOffers P (b.deliverServices now o ttl x) := by
  unfold deliverServices
  split
  · exact .nil
  · split
    · exact .single fun _ h => Option.some.inj h ▸ ho
    · exact .single fun _ h => Option.some.inj h ▸ ho

theorem redeliverServices_offers (ho : P o) (b : Broker) (now x : Nat) :
    OnlyOffers P (b.redeliverServices now o x) := by
  unfold redeliverServices
  split
  · exact .nil
  · dsimp only
    split
    · exact .single fun _ h => Option.some.inj h ▸ ho
    · exact .single fun _ h => Option.some.inj h ▸ ho

theorem publishServices_offers (ho : P o) (b : Broker) (now : Nat) (pre : Option ResolvedTopic)
    (ttl : Option Nat) (key : Option Bytes) :
    OnlyOffers P (b.publishServices E now pre o ttl key) := by
  unfold publishServices
  split
  · exact .nil
  · exact .fold fun b x _ => deliverServices_offers ho b now _ x

/-- Dead letters are not logged. -/
theorem tickServices_offers (b : Broker) (now clock : Nat) :
    OnlyOffers (fun o => o.walId = none) (b.tickServices E now clock) := by
  refine .append (.fold fun s e _ => ?_) (.fold fun b letter _ =>
    publishServices_offers (P := fun o => o.walId = none) rfl b clock none none none)
  unfold tickOneServices
  split
  · exact .nil
  · exact .single fun _ h => by cases h

/-- The message of a record, under its id. -/
def RecordOffer (r : WalRecord) (o : Offer) : Prop :=
  ∃ m, message? r = some m ∧ o = ⟨some r.id, m.topic, m.payload, m.qos⟩

theorem replayRecordServices_offers (now : Nat) (cursors : MaxMap (String × String)) (b : Broker)
    (r : WalRecord) : OnlyOffers (RecordOffer r) (replayRecordServices E now cursors b r) := by
  unfold replayRecordServices
  cases hm : message? r with
  | none => exact .nil
  | some m =>
    dsimp only
    split
    · exact .nil
    · refine .fold fun b x _ => ?_
      split
      · exact redeliverServices_offers ⟨m, hm, rfl⟩ b now x
      · exact .nil

theorem replayToServices_offers (now : Nat) (topic : String) (x : Nat) (b : Broker)
    (r : WalRecord) : OnlyOffers (RecordOffer r) (replayToServices now topic x b r) := by
  unfold replayToServices
  split
  · rename_i m sub hm hx
    split
    · rename_i htopic
      exact deliverServices_offers ⟨m, hm, by rw [htopic.1]⟩ b now _ x
    · exact .nil
  · exact .nil

end Brings

/-- **What is stored after a call was stored before or the call has brought it.** -/
theorem Serves.carries {b b' : Broker} {svcs : List (Nat × Service)} (h : Serves b b' svcs)
    {P : Offer → Prop} (hoffers : OnlyOffers P svcs) {x : Nat} {sub' : Subscriber}
    (hx : b'.subscribers.lookup x = some sub') {payload : Bytes} {walId : Option Nat}
    (hcarries : sub'.queue.Carries payload walId) :
    (∃ sub, b.subscribers.lookup x = some sub ∧ sub.queue.Carries payload walId) ∨
      ∃ o, P o ∧ o.payload = payload ∧ o.walId = walId := by
  rw [h.subscribers] at hx
  obtain ⟨sub, hsub, rfl⟩ := Option.map_eq_some_iff.mp hx
  let R : Bytes → Option Nat → Prop := fun payload walId => sub.queue.Carries payload walId ∨
    ∃ o, P o ∧ o.payload = payload ∧ o.walId = walId
  have hR : OfOffers fun _ e => R e.payload e.walId := ⟨fun _ _ _ _ he => he, fun _ _ _ he => he⟩
  have hlife : ∀ (svcs : List Service), (∀ svc ∈ svcs, ∀ o, svc.offer? = some o → P o) →
      ∀ sub' : Subscriber, sub'.queue.Stores (fun e => R e.payload e.walId) →
        (sub'.serveAll svcs).queue.Stores (fun e => R e.payload e.walId) := by
    intro svcs
    induction svcs with
    | nil => exact fun _ _ h => h
    | cons svc svcs ih =>
      intro hsvcs sub' hstores
      refine ih (fun svc' hmem => hsvcs svc' (List.mem_cons_of_mem _ hmem)) _
        (Subscriber.stores_serve hR hstores svc fun e he => ?_)
      have hbrings := hsvcs svc List.mem_cons_self
      cases svc with
      | enqueue now o ttl =>
        cases he
        exact .inr ⟨o, hbrings o rfl, rfl, rfl⟩
      | push now o ttl sent =>
        cases he
        exact .inr ⟨o, hbrings o rfl, rfl, rfl⟩
      | dequeue now baseDelay => cases he
      | ack tag => cases he
      | tick now maxRetries => cases he
  have hstart : sub.queue.Stores fun e => R e.payload e.walId :=
    SubscriberQueue.stores_iff_carries.mpr fun payload walId hc => .inl hc
  have hend := hlife (servicesOf x svcs)
    (fun svc hmem o ho => hoffers x svc o (mem_servicesOf.mp hmem) ho) sub hstart
  rcases SubscriberQueue.stores_iff_carries.mp hend payload walId hcarries with hc | ho
  · exact .inl ⟨sub, hsub, hc⟩
  · exact .inr ho

end Broker

/-! ## What a subscriber hands out -/

/-- What a consumer gets to see: the topic, the message, and the tag if it has to
be acked. -/
structure HandOut where
  topic : String
  payload : Bytes
  tag : Option Nat
  deriving DecidableEq, Repr

namespace Subscriber

def handOut (sub : Subscriber) : Service → Option HandOut
  | .push _ o _ sent =>
    if sent then
      some ⟨o.topic, o.payload, if o.qos = .atLeastOnce then some sub.pushNextTag else none⟩
    else none
  | .dequeue now baseDelay =>
    (sub.queue.dequeue now baseDelay).2.map fun d => ⟨sub.home.topic, d.1.payload, d.2⟩
  | _ => none

def handOuts (sub : Subscriber) (svcs : List Service) : List HandOut :=
  emitted serve (fun sub svc => (sub.handOut svc).toList) sub svcs

end Subscriber

namespace Broker

variable {E : Externals} {b : Broker} {x now : Nat} {sub : Subscriber}

/-- What `poll` returns is what the service hands out. -/
theorem poll_handOut (hreg : b.subscriptions.lookup x = some sub.home)
    (hx : b.subscribers.lookup x = some sub) :
    (b.poll now x).2.map (fun m => ⟨m.topic, m.payload, m.deliveryTag⟩) =
      sub.handOut (.dequeue now b.config.retryBaseDelay) := by
  unfold poll Subscriber.handOut
  rw [hreg, hx]
  dsimp only
  rw [Option.map_map]
  rfl

/-- What is pushed is what the service hands out, with the tag 0 where there is
nothing to ack. -/
theorem deliver_handOut (hx : b.subscribers.lookup x = some sub) (hmode : sub.mode ≠ .poll)
    (o : Offer) (ttl : Option Nat) :
    let svc : Service := .push now o ttl (b.hasRoom sub.mode)
    let served : Broker := { b with subscribers := b.subscribers.insert x (sub.serve svc) }
    (b.deliver E now o ttl x).1 = match sub.handOut svc with
      | none => served
      | some h => served.send E sub.mode ⟨x, h.topic, h.payload, o.qos, h.tag.getD 0⟩ := by
  intro svc served
  have hwire : sub.wireTag o =
      (if o.qos = .atLeastOnce then some sub.pushNextTag else none : Option Nat).getD 0 := by
    unfold Subscriber.wireTag
    split <;> rfl
  rw [deliver_push hx hmode]
  cases hroom : b.hasRoom sub.mode with
  | true => simp [Subscriber.handOut, served, svc, hroom, hwire, Subscriber.serve]
  | false => simp [Subscriber.handOut, served, svc, hroom, Subscriber.serve]

end Broker

end BlipMQ.Core
