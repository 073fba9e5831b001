import BlipMQ.Core.Fanout

/-!
# Broker — what the operations do to a subscriber

A subscriber's ledger is what is known about it without its queue: who it
is, where it is registered, what it was offered and what it has acked. Each
operation is described once by what it does to the ledgers, to the
registered subscriptions, to the cursors, and to the WAL ids the queues
refer to.
-/

namespace BlipMQ.Core

structure Ledger where
  clientId : String
  home : SubscriptionRef
  offered : List Offer
  acked : List Nat
  deriving DecidableEq, Repr

namespace Ledger

/-- The key of the consumer's cursor. -/
def key (l : Ledger) : String × String := (Broker.cursorId l.clientId l.home.group, l.home.topic)

/-- The ledger after further offers. -/
def offer (l : Ledger) (os : List Offer) : Ledger := { l with offered := l.offered ++ os }

@[simp] theorem offer_nil (l : Ledger) : l.offer [] = l := by
  simp [offer]

@[simp] theorem offer_offer (l : Ledger) (os os' : List Offer) :
    (l.offer os).offer os' = l.offer (os ++ os') := by
  simp [offer]

@[simp] theorem key_offer (l : Ledger) (os : List Offer) : (l.offer os).key = l.key := rfl

/-- The ledger after an ack. -/
def ack (l : Ledger) (walId : Nat) : Ledger := { l with acked := l.acked ++ [walId] }

/-- The logged messages it was offered and has not acked. -/
def pending (l : Ledger) : List Nat := (l.offered.filterMap Offer.walId).filter (· ∉ l.acked)

variable {l : Ledger}

theorem mem_pending {i : Nat} :
    i ∈ l.pending ↔ (∃ o ∈ l.offered, o.walId = some i) ∧ i ∉ l.acked := by
  simp [pending]

theorem mem_pending_ack {walId i : Nat} :
    i ∈ (l.ack walId).pending ↔ i ∈ l.pending ∧ i ≠ walId := by
  simp [mem_pending, ack, and_assoc]

theorem mem_pending_offer {os : List Offer} {i : Nat} (h : i ∈ (l.offer os).pending) :
    i ∈ l.pending ∨ ∃ o ∈ os, o.walId = some i := by
  obtain ⟨⟨o, ho, hid⟩, hacked⟩ := mem_pending.mp h
  rcases List.mem_append.mp ho with ho | ho
  · exact .inl (mem_pending.mpr ⟨⟨o, ho, hid⟩, hacked⟩)
  · exact .inr ⟨o, ho, hid⟩

end Ledger

def Subscriber.ledger (sub : Subscriber) : Ledger :=
  ⟨sub.clientId, sub.home, sub.offered, sub.acked⟩

@[simp] theorem Subscriber.ledger_enqueue (sub : Subscriber) (now : Nat) (o : Offer)
    (ttl : Option Nat) : (sub.enqueue now o ttl).ledger = sub.ledger.offer [o] := rfl

@[simp] theorem Subscriber.ledger_push (sub : Subscriber) (now : Nat) (o : Offer)
    (ttl : Option Nat) (sent : Bool) : (sub.push now o ttl sent).ledger = sub.ledger.offer [o] :=
  rfl

theorem Subscriber.walIds_enqueue {sub : Subscriber} {P : Nat → Prop} (h : sub.queue.WalIds P)
    {now : Nat} {o : Offer} {ttl : Option Nat} (ho : ∀ i, o.walId = some i → P i) :
    (sub.enqueue now o ttl).queue.WalIds P :=
  h.enqueue ho

theorem Subscriber.walIds_push {sub : Subscriber} {P : Nat → Prop} (h : sub.queue.WalIds P)
    {now : Nat} {o : Offer} {ttl : Option Nat} {sent : Bool}
    (ho : ∀ i, o.walId = some i → P i) : (sub.push now o ttl sent).queue.WalIds P := by
  unfold Subscriber.push
  dsimp only
  split
  · split
    · exact h.registerPushInflight ho
    · exact (h.registerPushInflight ho).eraseInflight _
  · exact h

namespace Broker

def ledger? (b : Broker) (subId : Nat) : Option Ledger :=
  (b.subscribers.lookup subId).map Subscriber.ledger

/-- Every subscriber there ever was, with its ledger. -/
def ledgers (b : Broker) : List (Nat × Ledger) :=
  b.subscribers.entries.map fun e => (e.1, e.2.ledger)

variable {b b' : Broker}

theorem mem_ledgers {e : Nat × Ledger} : e ∈ b.ledgers ↔ b.ledger? e.1 = some e.2 := by
  obtain ⟨x, l⟩ := e
  simp only [ledgers, List.mem_map, ledger?, Option.map_eq_some_iff]
  constructor
  · rintro ⟨⟨y, sub⟩, hmem, heq⟩
    cases heq
    exact ⟨sub, AList.mem_lookup_iff.mpr hmem, rfl⟩
  · rintro ⟨sub, hsub, rfl⟩
    exact ⟨⟨x, sub⟩, AList.mem_lookup_iff.mp hsub, rfl⟩

/-- Every queue refers only to WAL ids with `P`. -/
def WalIds (b : Broker) (P : Nat → Prop) : Prop :=
  ∀ subId sub, b.subscribers.lookup subId = some sub → sub.queue.WalIds P

section

variable {E : Externals} {b b' : Broker} {P : Nat → Prop} {x : Nat} {sub : Subscriber} {l : Ledger}

theorem ledger?_insert (h : b'.subscribers = b.subscribers.insert x sub) (hl : sub.ledger = l)
    (y : Nat) : b'.ledger? y = if y = x then some l else b.ledger? y := by
  rw [ledger?, h, lookup_insert_eq, ledger?, ← hl]
  by_cases hy : y = x <;> simp [hy]

/-- A change of a subscriber that its ledger does not show. -/
theorem ledger?_insert_same {sub' : Subscriber} (hx : b.subscribers.lookup x = some sub)
    (h : b'.subscribers = b.subscribers.insert x sub') (hl : sub'.ledger = sub.ledger) (y : Nat) :
    b'.ledger? y = b.ledger? y := by
  rw [ledger?_insert h hl]
  split
  · rename_i hy
    rw [hy, ledger?, hx]
    rfl
  · rfl

theorem WalIds.insert (h : b.WalIds P) (hs : b'.subscribers = b.subscribers.insert x sub)
    (hsub : sub.queue.WalIds P) : b'.WalIds P := by
  intro y s hy
  rw [hs] at hy
  exact forall_lookup_insert h hsub y s hy

theorem WalIds.mono {P' : Nat → Prop} (h : b.WalIds P) (himp : ∀ i, P i → P' i) : b.WalIds P' :=
  fun y s hy => (h y s hy).mono himp

theorem WalIds.congr (h : b.WalIds P) (hs : b'.subscribers = b.subscribers) : b'.WalIds P := by
  intro y s hy
  rw [hs] at hy
  exact h y s hy

end

/-! ## Serving subscribers -/

/-- From `b` to `b'` each subscriber `y` is offered `os y`, and nothing else
happens but to queues, buffers and channels. Those that poll get their
offers in order. -/
structure Served (now : Nat) (ttl : Option Nat) (b b' : Broker) (os : Nat → List Offer) :
    Prop where
  frame : ∃ subs slots channels,
    b' = { b with subscribers := subs, slots := slots, channels := channels }
  ledger : ∀ y, b'.ledger? y = (b.ledger? y).map (·.offer (os y))
  walIds : ∀ P : Nat → Prop, b.WalIds P → (∀ y, ∀ o ∈ os y, ∀ i, o.walId = some i → P i) →
    b'.WalIds P
  polled : ∀ y sub, b.subscribers.lookup y = some sub → sub.mode = .poll →
    b'.subscribers.lookup y = some ((os y).foldl (fun sub o => sub.enqueue now o ttl) sub)

namespace Served

variable {now : Nat} {ttl : Option Nat} {b b' b'' : Broker} {os os' : Nat → List Offer}

theorem refl (now : Nat) (ttl : Option Nat) (b : Broker) : Served now ttl b b fun _ => [] :=
  ⟨⟨_, _, _, rfl⟩, fun y => by simp, fun _ h _ => h, fun _ _ h _ => h⟩

theorem congr (h : Served now ttl b b' os) (hos : ∀ y, os y = os' y) : Served now ttl b b' os' :=
  funext hos ▸ h

theorem mode_foldl (os : List Offer) (sub : Subscriber) :
    (os.foldl (fun sub o => sub.enqueue now o ttl) sub).mode = sub.mode := by
  induction os generalizing sub with
  | nil => rfl
  | cons o os ih => exact ih _

theorem trans (h : Served now ttl b b' os) (h' : Served now ttl b' b'' os') :
    Served now ttl b b'' fun y => os y ++ os' y := by
  refine ⟨?_, ?_, ?_, ?_⟩
  · obtain ⟨_, _, _, rfl⟩ := h.frame
    obtain ⟨_, _, _, rfl⟩ := h'.frame
    exact ⟨_, _, _, rfl⟩
  · intro y
    rw [h'.ledger, h.ledger]
    cases b.ledger? y <;> simp
  · intro P hb hos
    refine h'.walIds P (h.walIds P hb fun y o ho => hos y o ?_) fun y o ho => hos y o ?_
    · exact List.mem_append_left _ ho
    · exact List.mem_append_right _ ho
  · intro y sub hy hmode
    rw [h'.polled y _ (h.polled y sub hy hmode) (by rw [mode_foldl, hmode]), List.foldl_append]

theorem config (h : Served now ttl b b' os) : b'.config = b.config := by
  obtain ⟨_, _, _, rfl⟩ := h.frame
  rfl

theorem topics (h : Served now ttl b b' os) : b'.topics = b.topics := by
  obtain ⟨_, _, _, rfl⟩ := h.frame
  rfl

theorem subscriptions (h : Served now ttl b b' os) : b'.subscriptions = b.subscriptions := by
  obtain ⟨_, _, _, rfl⟩ := h.frame
  rfl

theorem ackCursors (h : Served now ttl b b' os) : b'.ackCursors = b.ackCursors := by
  obtain ⟨_, _, _, rfl⟩ := h.frame
  rfl

theorem nextSubscriptionId (h : Served now ttl b b' os) :
    b'.nextSubscriptionId = b.nextSubscriptionId := by
  obtain ⟨_, _, _, rfl⟩ := h.frame
  rfl

/-- One subscriber is served, by its poll queue or by a push. -/
theorem one {x : Nat} {o : Offer} {sub sub' : Subscriber}
    (hframe : ∃ subs slots channels,
      b' = { b with subscribers := subs, slots := slots, channels := channels })
    (hx : b.subscribers.lookup x = some sub)
    (hsubs : b'.subscribers = b.subscribers.insert x sub')
    (hsub : sub' = sub.enqueue now o ttl ∨
      sub.mode ≠ .poll ∧ ∃ sent, sub' = sub.push now o ttl sent) :
    Served now ttl b b' fun y => if y = x then [o] else [] := by
  have hledger : sub'.ledger = sub.ledger.offer [o] := by
    rcases hsub with rfl | ⟨-, sent, rfl⟩ <;> rfl
  refine ⟨hframe, ?_, ?_, ?_⟩
  · intro y
    rw [ledger?_insert hsubs hledger]
    by_cases hy : y = x
    · subst hy
      rw [if_pos rfl, if_pos rfl, ledger?, hx]
      rfl
    · rw [if_neg hy, if_neg hy]
      simp
  · intro P hb hos
    have ho : ∀ i, o.walId = some i → P i := hos x o (by simp)
    refine hb.insert hsubs ?_
    rcases hsub with rfl | ⟨-, sent, rfl⟩
    · exact Subscriber.walIds_enqueue (hb x sub hx) ho
    · exact Subscriber.walIds_push (hb x sub hx) ho
  · intro y s hy hmode
    rw [hsubs, lookup_insert_eq]
    by_cases hyx : y = x
    · subst hyx
      rw [hx] at hy
      cases hy
      rw [if_pos rfl, if_pos rfl]
      rcases hsub with rfl | ⟨hpush, -⟩
      · rfl
      · exact absurd hmode hpush
    · rw [if_neg hyx, if_neg hyx, hy]
      rfl

end Served

section Deliver

variable {E : Externals} {b b' : Broker} {now : Nat} {ttl : Option Nat} {o : Offer} {x : Nat}

theorem send_frame (E : Externals) (b : Broker) (mode : DeliveryMode) (handle : DeliveryHandle) :
    ∃ slots channels, b.send E mode handle = { b with slots := slots, channels := channels } := by
  cases mode <;> exact ⟨_, _, rfl⟩

theorem send_subscribers (E : Externals) (b : Broker) (mode : DeliveryMode)
    (handle : DeliveryHandle) : (b.send E mode handle).subscribers = b.subscribers := by
  cases mode <;> rfl

/-- Nobody is there to be served. -/
theorem Served.absent (now : Nat) (ttl : Option Nat) (o : Offer)
    (hx : b.subscribers.lookup x = none) :
    Served now ttl b b fun y => if y = x then [o] else [] := by
  refine ⟨⟨_, _, _, rfl⟩, ?_, fun _ h _ => h, ?_⟩
  · intro y
    by_cases hy : y = x
    · subst hy
      simp [ledger?, hx]
    · simp [hy]
  · intro y sub hy _
    have hne : y ≠ x := by
      rintro rfl
      rw [hx] at hy
      cases hy
    rw [if_neg hne, hy]
    rfl

theorem deliver_served (E : Externals) (b : Broker) (now : Nat) (o : Offer) (ttl : Option Nat)
    (x : Nat) :
    Served now ttl b (b.deliver E now o ttl x).1 fun y => if y = x then [o] else [] := by
  cases hx : b.subscribers.lookup x with
  | none =>
    rw [deliver_absent hx]
    exact .absent now ttl o hx
  | some sub =>
    by_cases hmode : sub.mode = .poll
    · rw [deliver_poll hx hmode]
      exact .one ⟨_, _, _, rfl⟩ hx rfl (.inl rfl)
    · rw [deliver_push hx hmode]
      split
      · obtain ⟨slots, channels, heq⟩ := send_frame E
          { b with subscribers := b.subscribers.insert x (sub.push now o ttl true) }
          sub.mode ⟨x, o.topic, o.payload, o.qos, sub.wireTag o⟩
        exact .one ⟨_, slots, channels, heq⟩ hx (send_subscribers ..) (.inr ⟨hmode, _, rfl⟩)
      · exact .one ⟨_, _, _, rfl⟩ hx rfl (.inr ⟨hmode, _, rfl⟩)

/-- The loop offers the message once for each time a subscriber is listed. -/
theorem fanOut_served (E : Externals) (b : Broker) (now : Nat) (o : Offer) (ttl : Option Nat)
    (ids : List Nat) :
    Served now ttl b (b.fanOut E now o ttl ids).1 fun y => List.replicate (ids.count y) o := by
  induction ids generalizing b with
  | nil => exact .refl now ttl b
  | cons x ids ih =>
    refine ((deliver_served E b now o ttl x).trans (ih (b.deliver E now o ttl x).1)).congr ?_
    intro y
    by_cases hy : y = x
    · subst hy
      simp [List.replicate_succ]
    · have hne : ¬ x = y := fun he => hy he.symm
      simp [hy, hne]

end Deliver

/-! ## Unsubscribing -/

/-- Registrations go, subscribers and cursors stay. -/
structure Forgets (b b' : Broker) : Prop where
  subscribers : b'.subscribers = b.subscribers
  ackCursors : b'.ackCursors = b.ackCursors
  nextSubscriptionId : b'.nextSubscriptionId = b.nextSubscriptionId
  subscriptions : ∀ x subRef, b'.subscriptions.lookup x = some subRef →
    b.subscriptions.lookup x = some subRef

namespace Forgets

variable {b b' b'' : Broker}

theorem refl (b : Broker) : Forgets b b := ⟨rfl, rfl, rfl, fun _ _ h => h⟩

theorem trans (h : Forgets b b') (h' : Forgets b' b'') : Forgets b b'' :=
  ⟨h'.subscribers.trans h.subscribers, h'.ackCursors.trans h.ackCursors,
    h'.nextSubscriptionId.trans h.nextSubscriptionId,
    fun x r hx => h.subscriptions x r (h'.subscriptions x r hx)⟩

theorem foldl {α : Type} {f : Broker → α → Broker} (hf : ∀ b a, Forgets b (f b a))
    (b : Broker) (as : List α) : Forgets b (as.foldl f b) := by
  induction as generalizing b with
  | nil => exact refl b
  | cons a as ih => exact (hf b a).trans (ih (f b a))

end Forgets

theorem lookup_foldl_erase {x : Nat} {subRef : SubscriptionRef} {sids : List Nat}
    {subs : AList fun _ : Nat => SubscriptionRef}
    (h : (sids.foldl (fun subs sid => subs.erase sid) subs).lookup x = some subRef) :
    subs.lookup x = some subRef := by
  induction sids generalizing subs with
  | nil => exact h
  | cons sid sids ih => exact (lookup_erase_eq_some.mp (ih h)).2

theorem removeFromTopic_forgets (b : Broker) (x : Nat) (subRef : SubscriptionRef) :
    Forgets b (b.removeFromTopic x subRef) :=
  ⟨rfl, rfl, rfl, fun _ _ h => h⟩

theorem removeWildcards_forgets (b : Broker) (removed : List Nat) :
    Forgets b (b.removeWildcards removed) :=
  ⟨rfl, rfl, rfl, fun _ _ h => h⟩

theorem unsubscribeConnection_forgets (b : Broker) (connId : Nat) :
    Forgets b (b.unsubscribeConnection connId) := by
  have hfold (b : Broker) (removed : List (Nat × SubscriptionRef)) :=
    Forgets.foldl (fun b (p : Nat × SubscriptionRef) => removeFromTopic_forgets b p.1 p.2) b removed
  have hderegister : Forgets b { b with
      connectionSubs := b.connectionSubs.erase connId
      subscriptions := ((b.connectionSubs.lookup connId).getD []).foldl
        (fun subs sid => subs.erase sid) b.subscriptions } :=
    ⟨rfl, rfl, rfl, fun _ _ => lookup_foldl_erase⟩
  unfold unsubscribeConnection
  dsimp only
  split
  · exact hderegister.trans (hfold _ _)
  · exact (hderegister.trans (hfold _ _)).trans (removeWildcards_forgets _ _)

theorem unsubscribeOne_forgets (b : Broker) (x : Nat) : Forgets b (b.unsubscribeOne x) := by
  unfold unsubscribeOne
  split
  · exact .refl b
  · exact ⟨rfl, rfl, rfl, fun y r hy => (lookup_erase_eq_some.mp hy).2⟩

/-! ## Publishing -/

/-- The subscriptions a publish is offered to. -/
def targets (E : Externals) (b : Broker) (topicName : String) (partitionKey : Option Bytes) :
    List Nat :=
  if b.shuttingDown then [] else b.snapshot E (b.record topicName none) topicName partitionKey

/-- The subscribers `ids` are offered `o`; slow ones may lose their registration. -/
structure Publishes (b b' : Broker) (o : Offer) (ids : List Nat) : Prop where
  ledger : ∀ y, b'.ledger? y = (b.ledger? y).map (·.offer (List.replicate (ids.count y) o))
  walIds : ∀ P : Nat → Prop, b.WalIds P → (∀ i, o.walId = some i → P i) → b'.WalIds P
  ackCursors : b'.ackCursors = b.ackCursors
  nextSubscriptionId : b'.nextSubscriptionId = b.nextSubscriptionId
  subscriptions : ∀ x subRef, b'.subscriptions.lookup x = some subRef →
    b.subscriptions.lookup x = some subRef

/-- Changes that no subscriber, no registration and no cursor shows. -/
structure Same (b b' : Broker) : Prop where
  subscribers : b'.subscribers = b.subscribers
  ackCursors : b'.ackCursors = b.ackCursors
  nextSubscriptionId : b'.nextSubscriptionId = b.nextSubscriptionId
  subscriptions : b'.subscriptions = b.subscriptions

theorem Same.forgets (h : Same b b') : Forgets b b' :=
  ⟨h.subscribers, h.ackCursors, h.nextSubscriptionId, fun _ _ hx => h.subscriptions ▸ hx⟩

theorem startPublish_same (E : Externals) (b : Broker) (record : Option String)
    (walId : Option Nat) (partitionKey : Option Bytes) :
    Same b (b.startPublish E record walId partitionKey) := by
  cases record <;> exact ⟨rfl, rfl, rfl, rfl⟩

theorem endPublish_same (b : Broker) (record : Option String) (delivered dropped : Nat) :
    Same b (b.endPublish record delivered dropped) := by
  cases record <;> exact ⟨rfl, rfl, rfl, rfl⟩

theorem startPublish_config (E : Externals) (b : Broker) (record : Option String)
    (walId : Option Nat) (partitionKey : Option Bytes) :
    (b.startPublish E record walId partitionKey).config = b.config := by
  cases record <;> rfl

theorem endPublish_config (b : Broker) (record : Option String) (delivered dropped : Nat) :
    (b.endPublish record delivered dropped).config = b.config := by
  cases record <;> rfl

theorem Publishes.of_served {now : Nat} {ttl : Option Nat} {b₁ b₂ : Broker} {o : Offer}
    {ids : List Nat} (hsame : Same b b₁)
    (hserved : Served now ttl b₁ b₂ fun y => List.replicate (ids.count y) o)
    (hforget : Forgets b₂ b') : Publishes b b' o ids := by
  refine ⟨?_, ?_, ?_, ?_, ?_⟩
  · intro y
    have hl : b'.ledger? y = b₂.ledger? y := by rw [ledger?, hforget.subscribers, ledger?]
    rw [hl, hserved.ledger, ledger?, hsame.subscribers, ledger?]
  · intro P hb ho
    refine (hserved.walIds P (hb.congr hsame.subscribers) ?_).congr hforget.subscribers
    intro y o' ho'
    rw [List.eq_of_mem_replicate ho']
    exact ho
  · rw [hforget.ackCursors, hserved.ackCursors, hsame.ackCursors]
  · rw [hforget.nextSubscriptionId, hserved.nextSubscriptionId, hsame.nextSubscriptionId]
  · intro x subRef hx
    have hx' := hforget.subscriptions x subRef hx
    rwa [hserved.subscriptions, hsame.subscriptions] at hx'

/-- **The stages of a publish** on a running broker: counting, the fan-out, counting again,
and then the policy for slow consumers removes some that had no room. -/
theorem publishInner_cases (E : Externals) (b : Broker) (now : Nat) (pre : Option ResolvedTopic)
    (o : Offer) (ttl : Option Nat) (key : Option Bytes) :
    b.shuttingDown = true ∧ b.publishInner E now pre o ttl key = b ∨
    b.shuttingDown = false ∧ ∃ b₁ slow delivered dropped evicted,
      (b.startPublish E (b.record o.topic pre) o.walId key).fanOut E now o
        (ttl.or (some b.config.messageTtl))
        (b.snapshot E (b.record o.topic pre) o.topic key) = (b₁, slow) ∧
      Served now (ttl.or (some b.config.messageTtl))
        (b.startPublish E (b.record o.topic pre) o.walId key) b₁
        (fun y => List.replicate
          ((b.snapshot E (b.record o.topic pre) o.topic key).count y) o) ∧
      b.publishInner E now pre o ttl key =
        evicted.foldl unsubscribeOne
          (b₁.endPublish (b.record o.topic pre) delivered dropped) ∧
      (∀ x ∈ evicted, x ∈ slow) ∧
      (b.config.slowConsumerPolicy = .dropNewest → evicted = []) := by
  unfold publishInner
  cases hdown : b.shuttingDown with
  | true => exact .inl ⟨rfl, rfl⟩
  | false =>
    have hserved := fanOut_served E (b.startPublish E (b.record o.topic pre) o.walId key) now o
      (ttl.or (some b.config.messageTtl)) (b.snapshot E (b.record o.topic pre) o.topic key)
    have hconfig := hserved.config.trans
      (startPublish_config E b (b.record o.topic pre) o.walId key)
    rw [if_neg Bool.false_ne_true]
    dsimp only
    rw [endPublish_config, hconfig]
    split
    · exact .inr ⟨rfl, _, _, _, _, [], rfl, hserved, rfl, List.forall_mem_nil _, fun _ => rfl⟩
    · rename_i hpolicy
      refine .inr ⟨rfl, _, _, _, _, _, rfl, hserved, rfl, fun _ hx => hx, fun hkeep => ?_⟩
      rw [hpolicy] at hkeep
      cases hkeep

/-- What a publish does, with or without a handle the caller has kept. -/
theorem publishInner_publishes (E : Externals) (b : Broker) (now : Nat)
    (pre : Option ResolvedTopic) (o : Offer) (ttlOverride : Option Nat)
    (partitionKey : Option Bytes) :
    Publishes b (b.publishInner E now pre o ttlOverride partitionKey) o
      (if b.shuttingDown then []
        else b.snapshot E (b.record o.topic pre) o.topic partitionKey) := by
  rcases publishInner_cases E b now pre o ttlOverride partitionKey with
    ⟨hdown, heq⟩ | ⟨hrunning, b₁, _, _, _, evicted, -, hserved, heq, -⟩
  · rw [heq, hdown]
    exact ⟨fun y => by simp, fun _ h _ => h, rfl, rfl, fun _ _ h => h⟩
  · rw [heq, hrunning]
    exact .of_served (startPublish_same ..) hserved
      ((endPublish_same ..).forgets.trans (.foldl unsubscribeOne_forgets _ _))

theorem publishInner_spec (E : Externals) (b : Broker) (now : Nat) (o : Offer)
    (ttlOverride : Option Nat) (partitionKey : Option Bytes) :
    Publishes b (b.publishInner E now none o ttlOverride partitionKey) o
      (b.targets E o.topic partitionKey) :=
  publishInner_publishes E b now none o ttlOverride partitionKey

/-! ## Subscribing -/

/-- A new subscriber under the next id. -/
structure Subscribes (b b' : Broker) (l : Ledger) : Prop where
  fresh : l.offered = [] ∧ l.acked = []
  ledger : ∀ y, b'.ledger? y = if y = b.nextSubscriptionId then some l else b.ledger? y
  walIds : ∀ P : Nat → Prop, b.WalIds P → b'.WalIds P
  ackCursors : b'.ackCursors = b.ackCursors
  nextSubscriptionId : b'.nextSubscriptionId = b.nextSubscriptionId + 1
  subscriptions : ∀ x, b'.subscriptions.lookup x =
    if x = b.nextSubscriptionId then some l.home else b.subscriptions.lookup x

theorem subscribeInnerGrouped_spec (b : Broker) (clientId topic : String) (qos : QoSLevel)
    (connId : Option Nat) (mode : DeliveryMode) (group : Option String) :
    Subscribes b (b.subscribeInnerGrouped clientId topic qos connId mode group).1
      ⟨clientId, ⟨topic, group⟩, [], []⟩ :=
  ⟨⟨rfl, rfl⟩, ledger?_insert rfl rfl, fun _ h => h.insert rfl (.new ..), rfl, rfl,
    fun _ => lookup_insert_eq ..⟩

theorem subscribePatternInner_spec (b : Broker) (clientId : String) (pattern : SubjectPattern)
    (qos : QoSLevel) (connId : Option Nat) (mode : DeliveryMode) :
    ∃ topic, Subscribes b (b.subscribePatternInner clientId pattern qos connId mode).1
      ⟨clientId, ⟨topic, none⟩, [], []⟩ := by
  unfold subscribePatternInner
  split
  · exact ⟨_, subscribeInnerGrouped_spec ..⟩
  · have h := subscribeInnerGrouped_spec b clientId pattern.raw qos connId mode none
    exact ⟨_, h.fresh, h.ledger, h.walIds, h.ackCursors, h.nextSubscriptionId, h.subscriptions⟩

/-! ## Polling and acknowledging -/

/-- Nothing the ledgers or the cursors show; registrations may go. -/
structure Quiet (b b' : Broker) : Prop where
  ledger : ∀ y, b'.ledger? y = b.ledger? y
  walIds : ∀ P : Nat → Prop, b.WalIds P → b'.WalIds P
  ackCursors : b'.ackCursors = b.ackCursors
  nextSubscriptionId : b'.nextSubscriptionId = b.nextSubscriptionId
  subscriptions : ∀ x subRef, b'.subscriptions.lookup x = some subRef →
    b.subscriptions.lookup x = some subRef

theorem Forgets.quiet (h : Forgets b b') : Quiet b b' :=
  ⟨fun y => by rw [ledger?, h.subscribers, ledger?], fun _ hb => hb.congr h.subscribers,
    h.ackCursors, h.nextSubscriptionId, h.subscriptions⟩

theorem Quiet.refl (b : Broker) : Quiet b b := (Forgets.refl b).quiet

theorem poll_quiet (b : Broker) (now x : Nat) : Quiet b (b.poll now x).1 := by
  unfold poll
  split
  · rename_i subRef sub href hx
    exact ⟨ledger?_insert_same hx rfl rfl, fun _ h => h.insert rfl ((h x sub hx).dequeue _ _), rfl,
      rfl, fun _ _ h => h⟩
  · exact .refl b

/-- The ack of a logged message by subscription `x`: the delivery in flight under
the tag says which record, the registration says under which key. -/
structure Acks (b b' : Broker) (x tag : Nat) (a : WalAckRecord) : Prop where
  source : ∃ subRef sub e, b.subscriptions.lookup x = some subRef ∧
    b.subscribers.lookup x = some sub ∧ sub.queue.inflight.lookup tag = some e ∧
    e.walId = some a.ackedWalId ∧ a.clientId = cursorId sub.clientId subRef.group ∧
    a.topic = subRef.topic
  ledger : ∀ y, b'.ledger? y = (b.ledger? y).map fun l =>
    if y = x then l.ack a.ackedWalId else l
  walIds : ∀ P : Nat → Prop, b.WalIds P → b'.WalIds P
  ackCursors : b'.ackCursors = b.ackCursors.raise (a.clientId, a.topic) a.ackedWalId
  nextSubscriptionId : b'.nextSubscriptionId = b.nextSubscriptionId
  subscriptions : b'.subscriptions = b.subscriptions

section Ack

variable {b b' : Broker} {x tag : Nat} {a : WalAckRecord}

theorem queue_of_ack {q q' : SubscriberQueue} {found : Option (Option Nat)}
    (h : q.ack tag = (q', found)) :
    q' = { q with inflight := q.inflight.erase tag } ∧
      (q.inflight.lookup tag).map QueueEntry.walId = found := by
  cases h
  exact ⟨rfl, rfl⟩

theorem ack_quiet (h : b.ack x tag = some (b', none)) : Quiet b b' := by
  unfold ack at h
  split at h
  · rename_i subRef sub href hx
    split at h
    · cases h
    · rename_i queue hack
      cases h
      refine ⟨ledger?_insert_same hx rfl rfl, fun P hb => hb.insert rfl ?_, rfl, rfl,
        fun _ _ h => h⟩
      rw [(queue_of_ack hack).1]
      exact (hb x sub hx).eraseInflight tag
    · cases h
  · cases h

theorem ack_spec (h : b.ack x tag = some (b', some a)) : Acks b b' x tag a := by
  unfold ack at h
  split at h
  · rename_i subRef sub href hx
    split at h
    · cases h
    · cases h
    · rename_i queue walId hack
      cases h
      obtain ⟨hqueue, hfound⟩ := queue_of_ack hack
      obtain ⟨e, he, hid⟩ := Option.map_eq_some_iff.mp hfound
      refine ⟨⟨subRef, sub, e, href, hx, he, hid, rfl, rfl⟩, ?_, fun P hb => hb.insert rfl ?_, rfl,
        rfl, rfl⟩
      · intro y
        rw [ledger?_insert rfl rfl]
        by_cases hy : y = x
        · subst hy
          rw [if_pos rfl, ledger?, hx]
          simp [Subscriber.ledger, Ledger.ack]
        · simp [hy]
      · show queue.WalIds P
        rw [hqueue]
        exact (hb x sub hx).eraseInflight tag
  · cases h

/-- The entry an ack journals, from the state before it. -/
theorem Acks.entry (h : Acks b b' x tag a) : (b.ack x tag).bind Prod.snd = some a := by
  obtain ⟨subRef, sub, e, href, hsub, he, hid, hclient, htopic⟩ := h.source
  unfold ack SubscriberQueue.ack
  simp only [href, hsub, he, Option.map_some, hid, Option.bind_some]
  rw [← hclient, ← htopic]

end Ack

end Broker

end BlipMQ.Core
