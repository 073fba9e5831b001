import BlipMQ.Core.DeadLetter
import BlipMQ.Core.Origin

/-!
# Broker — the topic of a message

On the push paths a consumer is shown the topic of the publish. The queue
does not keep it: polled messages, dead letters and acks take the topic the
subscription is recorded under. For a wildcard subscription that is the text
of its pattern.
-/

namespace BlipMQ.Core

/-! ## What a subscription is offered -/

/-- The topic is the one the subscription is recorded under, or its pattern
matches it. -/
def Interest.hears (i : Interest) (topic : String) : Prop :=
  i.home.topic = topic ∨ ∃ p, i.wildcard = some p ∧ p.matches topic = true

namespace System

/-- Every subscription has been offered only what it hears. -/
def OffersHeard (s : System) : Prop :=
  ∀ x reg l, s.registrations.lookup x = some reg → s.broker.ledger? x = some l →
    ∀ o ∈ l.offered, reg.interest.hears o.topic

section Heard

variable {E : Externals} {s s' : System} {x : Nat} {reg : Registration} {o : Offer}

/-- One more round of offers, each of them heard. -/
theorem OffersHeard.offer (h : s.OffersHeard) (hregs : s'.registrations = s.registrations)
    {os : Nat → List Offer}
    (hledger : ∀ y, s'.broker.ledger? y = (s.broker.ledger? y).map (·.offer (os y)))
    (hos : ∀ x reg l, s.registrations.lookup x = some reg → s.broker.ledger? x = some l →
      ∀ o ∈ os x, reg.interest.hears o.topic) : s'.OffersHeard := by
  intro x reg l' hreg hl' o ho
  rw [hregs] at hreg
  rw [hledger] at hl'
  obtain ⟨l, hl, rfl⟩ := Option.map_eq_some_iff.mp hl'
  rcases List.mem_append.mp ho with ho | ho
  · exact h x reg l hreg hl o ho
  · exact hos x reg l hreg hl o ho

/-- The ledgers show the same offers. -/
theorem OffersHeard.congr (h : s.OffersHeard) (hregs : s'.registrations = s.registrations)
    (hledger : ∀ y l', s'.broker.ledger? y = some l' →
      ∃ l, s.broker.ledger? y = some l ∧ l'.offered = l.offered) : s'.OffersHeard := by
  intro x reg l' hreg hl' o ho
  rw [hregs] at hreg
  obtain ⟨l, hl, hsame⟩ := hledger x l' hl'
  exact h x reg l hreg hl o (hsame ▸ ho)

/-- Who is a target of a publish hears its topic, if the record the publish goes
to is the one of the topic. -/
theorem Sound.hears_of_mem_snapshot (h : s.Sound) {record : Option String} {t : String}
    {key : Option Bytes} (hrecord : ∀ name, record = some name → name = t)
    (hx : x ∈ s.broker.snapshot E record t key) (hreg : s.registrations.lookup x = some reg) :
    reg.interest.hears t := by
  have hhome : ∀ home, s.broker.subscriptions.lookup x = some home →
      reg.interest.home = home := by
    intro home hhome
    obtain ⟨reg', hreg', rfl⟩ := h.registered x home hhome
    rw [hreg] at hreg'
    cases hreg'
    rfl
  have hmembers : ∀ g, x ∈ s.broker.members t g → reg.interest.hears t := by
    intro g hmem
    exact .inl (congrArg SubscriptionRef.topic (hhome _ (h.consistent.mem_members.mp hmem)))
  rcases List.mem_append.mp hx with hexact | hwild
  · cases hlookup : record.bind s.broker.topics.lookup with
    | none =>
      rw [hlookup] at hexact
      cases hexact
    | some topic =>
      rw [hlookup] at hexact
      obtain ⟨name, rfl, ht⟩ := Option.bind_eq_some_iff.mp hlookup
      cases hrecord name rfl
      rcases List.mem_append.mp hexact with hsub | hchosen
      · refine hmembers none ?_
        rw [Broker.members, ht]
        exact hsub
      · have hmem : x ∈ s.broker.chosen E t key := by
          rw [Broker.chosen, ht]
          exact hchosen
        obtain ⟨g, hg⟩ := Broker.group_of_mem_chosen h.consistent hmem
        exact .inl (congrArg SubscriptionRef.topic (hhome _ hg))
  · obtain ⟨p, hp, hmatches⟩ := (Broker.mem_wildcardTargets h.consistent).mp hwild
    have hlive : (s.broker.subscriptions.lookup x).isSome := h.consistent.wildcards_live _ hp
    exact .inr ⟨p, (h.wildcards x reg p hreg hlive).mp hp, hmatches⟩

/-- The publish goes to the record of its topic, or to none. -/
def PublishesTo (b : Broker) (o : Offer) (pre : Option ResolvedTopic) : Prop :=
  ∀ name, b.record o.topic pre = some name → name = o.topic

theorem publishesTo_none (b : Broker) (o : Offer) : PublishesTo b o none := by
  intro name hname
  obtain ⟨_, -, rfl⟩ := Option.map_eq_some_iff.mp hname
  rfl

theorem OffersHeard.publish (h : s.OffersHeard) (hsound : s.Sound) {pre : Option ResolvedTopic}
    (hpre : PublishesTo s.broker o pre) (now : Nat) (ttl : Option Nat) (key : Option Bytes) :
    (⟨s.broker.publishInner E now pre o ttl key, s.registrations⟩ : System).OffersHeard := by
  refine h.offer rfl (Broker.publishInner_publishes E s.broker now pre o ttl key).ledger ?_
  intro x reg _ hreg _ o' ho'
  obtain ⟨hcount, rfl⟩ := List.mem_replicate.mp ho'
  have hmem := List.count_pos_iff.mp (Nat.pos_of_ne_zero hcount)
  split at hmem
  · cases hmem
  · exact hsound.hears_of_mem_snapshot hpre hmem hreg

theorem OffersHeard.tick (h : s.OffersHeard) (hsound : s.Sound) (now clock : Nat) :
    (⟨s.broker.maintenanceTick E now clock, s.registrations⟩ : System).OffersHeard := by
  have hticked : (⟨(s.broker.tickQueues now).1, s.registrations⟩ : System).OffersHeard := by
    refine Broker.tickQueues_invariant (P := fun b => OffersHeard ⟨b, s.registrations⟩) h now ?_
    intro b x sub hb hx
    have hsame : ∀ y, Broker.ledger? { b with
        subscribers := (b.subscribers.insert x
          { sub with queue := (sub.queue.maintenanceTick now b.config.maxRetries).1 }) } y =
          b.ledger? y := Broker.ledger?_insert_same hx rfl rfl
    exact hb.congr rfl fun y l' hl' => ⟨l', (hsame y).symm.trans hl', rfl⟩
  have hstart : (⟨(s.broker.tickQueues now).1, s.registrations⟩ : System).Sound :=
    hsound.drops (.of_eq hsound.consistent (Broker.registry_tickQueues now)) rfl
  have hletters : ∀ (letters : List (String × Bytes)) (b : Broker),
      (⟨b, s.registrations⟩ : System).Sound → (⟨b, s.registrations⟩ : System).OffersHeard →
      (⟨letters.foldl (Broker.publishDeadLetter E clock) b, s.registrations⟩ :
        System).OffersHeard := by
    intro letters
    induction letters with
    | nil => exact fun _ _ hb => hb
    | cons letter letters ih =>
      intro b hb hheard
      exact ih _ (hb.drops (Broker.publishInner_drops hb.consistent ..) rfl)
        (hheard.publish hb (publishesTo_none b _) clock none none)
  exact hletters _ _ hstart hticked

/-- What replay offers comes from the topic the subscription is recorded under. -/
theorem Sound.hears_of_replayOffers (h : s.Sound) {cursors : MaxMap (String × String)}
    {r : Wal.WalRecord} {l : Ledger} (hl : s.broker.ledger? x = some l)
    (ho : o ∈ s.broker.replayOffers cursors x r)
    (hreg : s.registrations.lookup x = some reg) : reg.interest.hears o.topic := by
  obtain ⟨m, -, rfl, hhome, -⟩ := (Broker.mem_replayOffers_iff h.consistent hl).mp ho
  obtain ⟨reg', hreg', hsame⟩ := h.registered x _ hhome
  rw [hreg] at hreg'
  cases hreg'
  exact .inl (congrArg SubscriptionRef.topic hsame).symm

theorem OffersHeard.replayTo (h : s.OffersHeard) {topic : String}
    (htopic : ∀ reg, s.registrations.lookup x = some reg → reg.interest.home.topic = topic)
    (now : Nat) (r : Wal.WalRecord) :
    (⟨Broker.replayTo E now topic x s.broker r, s.registrations⟩ : System).OffersHeard := by
  unfold Broker.replayTo
  split
  · split
    · refine h.offer rfl (Broker.deliver_served E s.broker now _ _ x).ledger ?_
      intro y reg _ hreg _ o ho
      split at ho
      · rename_i hy
        rw [List.mem_singleton.mp ho]
        exact .inl (htopic reg (hy ▸ hreg))
      · cases ho
    · exact h
  · exact h

theorem OffersHeard.subscribed (h : s.OffersHeard) {l : Ledger}
    (hs : s.broker.Subscribes s'.broker l)
    (hregs : s'.registrations = s.registrations.insert s.broker.nextSubscriptionId reg) :
    s'.OffersHeard := by
  intro y reg' l' hreg' hl' o ho
  rw [hs.ledger] at hl'
  split at hl'
  · cases hl'
    rw [hs.fresh.1] at ho
    cases ho
  · rename_i hne
    rw [hregs, AList.lookup_insert_ne hne] at hreg'
    exact h y reg' l' hreg' hl' o ho

/-- The handle of a publish, if it has one, is that of its topic. -/
def HandleFits (s : System) : BrokerAction → Prop
  | .publish _ pre o _ _ => PublishesTo s.broker o pre
  | _ => True

theorem OffersHeard.quiet (h : s.OffersHeard) (hq : s.broker.Quiet s'.broker)
    (hregs : s'.registrations = s.registrations) : s'.OffersHeard :=
  h.congr hregs fun y l' hl' => ⟨l', (hq.ledger y).symm.trans hl', rfl⟩

theorem OffersHeard.ack (h : s.OffersHeard) (y tag : Nat) :
    (⟨((s.broker.ack y tag).map Prod.fst).getD s.broker, s.registrations⟩ :
      System).OffersHeard := by
  cases hack : s.broker.ack y tag with
  | none => exact h
  | some out =>
    obtain ⟨b', entry⟩ := out
    cases entry with
    | none => exact h.quiet (Broker.ack_quiet hack) rfl
    | some a =>
      refine h.congr rfl fun z l' hl' => ?_
      replace hl' := ((Broker.ack_spec hack).ledger z).symm.trans hl'
      obtain ⟨l, hl, rfl⟩ := Option.map_eq_some_iff.mp hl'
      refine ⟨l, hl, ?_⟩
      split <;> rfl

theorem OffersHeard.replayToSubscriber (h : s.OffersHeard) (hsound : s.Sound) (now : Nat)
    (log : Log) (y fromOffset : Nat) :
    (⟨s.broker.replayToSubscriber E now log y fromOffset, s.registrations⟩ :
      System).OffersHeard := by
  unfold Broker.replayToSubscriber
  cases hhome : s.broker.subscriptions.lookup y with
  | none => exact h
  | some home =>
    have htopic : ∀ reg, s.registrations.lookup y = some reg →
        reg.interest.home.topic = home.topic := by
      intro reg hreg
      obtain ⟨reg', hreg', rfl⟩ := hsound.registered y home hhome
      rw [hreg] at hreg'
      cases hreg'
      rfl
    exact List.foldlRecOn (motive := fun b => OffersHeard ⟨b, s.registrations⟩) _ _ h
      fun b hb r _ => OffersHeard.replayTo (s := ⟨b, s.registrations⟩) hb htopic now r

theorem OffersHeard.act (h : s.OffersHeard) (hsound : s.Sound) {a : BrokerAction}
    (ha : s.HandleFits a) : (s.act E a).OffersHeard := by
  cases a with
  | subscribe clientId topic qos connId mode group =>
    exact h.subscribed (Broker.subscribeInnerGrouped_spec ..) rfl
  | subscribePattern clientId pattern qos connId mode =>
    cases hparse : SubjectPattern.parse pattern with
    | error e => simpa [System.act, Broker.act, newRegistration, hparse] using h
    | ok p =>
      obtain ⟨topic, hs⟩ := Broker.subscribePatternInner_spec s.broker clientId p qos connId mode
      have hbroker : s.broker.Subscribes (s.act E (.subscribePattern clientId pattern qos connId
          mode)).broker ⟨clientId, ⟨topic, none⟩, [], []⟩ := by
        simpa [System.act, Broker.act, hparse] using hs
      exact h.subscribed hbroker (by simp [System.act, newRegistration, hparse]; rfl)
  | unsubscribeConnection connId =>
    exact h.quiet (Broker.unsubscribeConnection_forgets ..).quiet rfl
  | publish now pre o ttl key => exact h.publish hsound ha now ttl key
  | poll now y => exact h.quiet (Broker.poll_quiet ..) rfl
  | ack y tag => exact h.ack y tag
  | maintenanceTick now clock => exact h.tick hsound now clock
  | replayFromWal now log checkpoint =>
    refine h.offer rfl (Broker.ledger?_replay E now log s.broker checkpoint) ?_
    intro x reg l hreg hl o ho
    obtain ⟨r, -, ho⟩ := List.mem_flatMap.mp ho
    exact hsound.hears_of_replayOffers hl ho hreg
  | replayToSubscriber now log y fromOffset =>
    exact h.replayToSubscriber hsound now log y fromOffset
  | buffers slots channels => exact h
  | beginShutdown => exact h

/-- The handle of each publish is that of its topic. -/
def HandlesFit (E : Externals) (s : System) : List BrokerAction → Prop
  | [] => True
  | a :: acts => s.HandleFits a ∧ HandlesFit E (s.act E a) acts

theorem OffersHeard.run (h : s.OffersHeard) (hsound : s.Sound) {acts : List BrokerAction}
    (hfit : s.HandlesFit E acts) : (s.run E acts).OffersHeard := by
  induction acts generalizing s with
  | nil => exact h
  | cons a acts ih => exact ih (h.act hsound hfit.1) (hsound.act a) hfit.2

end Heard

end System

/-! ## What the broker calls the topic -/

namespace Broker

/-- How the broker names the topic of the messages of an offer. Pushed to the
consumer they carry the topic of the publish. Polled, dropped or acked they
do just if the subscription is recorded under that topic. -/
structure Names (E : Externals) (b : Broker) (x : Nat) (home : SubscriptionRef)
    (sub : Subscriber) (o : Offer) : Prop where
  pushed : ∀ now ttl, sub.mode ≠ .poll → b.hasRoom sub.mode = true →
    (b.deliver E now o ttl x).1 =
      send E { b with subscribers := b.subscribers.insert x (sub.push now o ttl true) }
        sub.mode ⟨x, o.topic, o.payload, o.qos, sub.wireTag o⟩
  replayed : ∀ now slot, sub.mode = .slot slot →
    b.redeliver E now o x =
      send E { b with subscribers := (b.subscribers.insert x
          (sub.push now o (some b.config.messageTtl) true)) }
        (.slot slot) ⟨x, o.topic, o.payload, o.qos, sub.wireTag o⟩
  polled : ∀ now m, (b.poll now x).2 = some m →
    (m.topic = o.topic ↔ home.topic = o.topic)
  dropped : ∀ now letter suffix, b.config.dlqSuffix = some suffix →
    letter ∈ b.lettersOf now ⟨x, home⟩ →
    (letter.1 = o.topic ++ suffix ↔ home.topic = o.topic)
  acked : ∀ tag b' a, b.ack x tag = some (b', some a) →
    (a.topic = o.topic ↔ home.topic = o.topic) ∧
      b'.ackCursors = b.ackCursors.raise (a.clientId, a.topic) a.ackedWalId

section Names

variable {E : Externals} {b : Broker} {x : Nat} {home : SubscriptionRef} {sub : Subscriber}

theorem topic_of_poll (hhome : b.subscriptions.lookup x = some home) {now : Nat}
    {m : PolledMessage} (h : (b.poll now x).2 = some m) : m.topic = home.topic := by
  unfold poll at h
  rw [hhome] at h
  cases hx : b.subscribers.lookup x with
  | none =>
    rw [hx] at h
    cases h
  | some sub =>
    rw [hx] at h
    obtain ⟨d, -, rfl⟩ := Option.map_eq_some_iff.mp h
    rfl

theorem names (hhome : b.subscriptions.lookup x = some home)
    (hx : b.subscribers.lookup x = some sub) (o : Offer) : b.Names E x home sub o where
  pushed now ttl hmode hroom := by rw [deliver_push hx hmode, if_pos hroom]
  replayed now slot hmode := by
    unfold redeliver
    rw [hx]
    dsimp only
    rw [hmode]
  polled now m hm := by rw [topic_of_poll hhome hm]
  dropped now letter suffix hsuffix hmem := by
    obtain ⟨suffix', hsuffix', hletter, -⟩ := topic_ne_of_mem_lettersOf hmem
    rw [hsuffix] at hsuffix'
    cases hsuffix'
    rw [hletter]
    exact String.append_left_inj suffix
  acked tag b' a hack := by
    have hacks := ack_spec hack
    obtain ⟨home', -, -, hhome', -, -, -, -, htopic⟩ := hacks.source
    rw [hhome] at hhome'
    cases hhome'
    exact ⟨by rw [htopic], hacks.ackCursors⟩

/-- What the subscription shows, drops and acks was offered to it. -/
structure ShowsOffers (b : Broker) (x : Nat) (home : SubscriptionRef) (offered : List Offer) :
    Prop where
  polled : ∀ now m, (b.poll now x).2 = some m → ∃ o ∈ offered, o.payload = m.payload
  dropped : ∀ now letter, letter ∈ b.lettersOf now ⟨x, home⟩ →
    ∃ o ∈ offered, o.payload = letter.2
  acked : ∀ tag b' a, b.ack x tag = some (b', some a) →
    ∃ o ∈ offered, o.walId = some a.ackedWalId

theorem showsOffers (hhome : b.subscriptions.lookup x = some home)
    (hx : b.subscribers.lookup x = some sub)
    (hstores : sub.queue.Stores (OfferedIn sub.offered)) :
    b.ShowsOffers x home sub.offered where
  polled now m hm := by
    unfold poll at hm
    rw [hhome, hx] at hm
    obtain ⟨d, hd, rfl⟩ := Option.map_eq_some_iff.mp hm
    obtain ⟨o, ho, hpayload, -⟩ := (hstores.dequeue (ofOffers_offeredIn.ofMessage _) now _).2 d hd
    exact ⟨o, ho, hpayload⟩
  dropped now letter hmem := by
    unfold lettersOf deadLetters at hmem
    rw [hx] at hmem
    dsimp only at hmem
    split at hmem
    · exact absurd hmem List.not_mem_nil
    · split at hmem
      · exact absurd hmem List.not_mem_nil
      · obtain ⟨d, hd, rfl⟩ := List.mem_map.mp hmem
        obtain ⟨d', hd', rfl⟩ := List.mem_map.mp hd
        obtain ⟨o, ho, hpayload, -⟩ :=
          (hstores.sweep (ofOffers_offeredIn.ofMessage _) now b.config.maxRetries).dropped d' hd'
        exact ⟨o, ho, hpayload⟩
  acked tag b' a hack := by
    obtain ⟨-, sub', e, -, hx', he, hid, -⟩ := (ack_spec hack).source
    rw [hx] at hx'
    cases hx'
    obtain ⟨o, ho, -, hsame⟩ := hstores.inflight tag e he
    exact ⟨o, ho, hsame.trans hid⟩

end Names

end Broker

/-- **When a message keeps its topic.** In every state of every run, what a live
subscription shows, drops or acks stems from what it was offered. Pushed, a
message carries the topic it was published on. Polled, as a dead letter and in
the acks it does just if the subscription is recorded under that topic. For a
subscription of an exact topic, with a group or without, that is always so. -/
theorem System.topic_kept_iff (E : Externals) (config : BrokerConfig) (hasWal : Bool)
    (acts : List BrokerAction) (x : Nat) (i : Interest) (sub : Subscriber)
    (hlive : ((System.new config hasWal).run E acts).Live x i)
    (hx : ((System.new config hasWal).run E acts).broker.subscribers.lookup x = some sub) :
    let b := ((System.new config hasWal).run E acts).broker
    b.ShowsOffers x i.home sub.offered ∧
    (∀ o ∈ sub.offered, b.Names E x i.home sub o) ∧
    ((System.new config hasWal).HandlesFit E acts → ∀ o ∈ sub.offered,
      i.hears o.topic ∧ (i.wildcard = none → i.home.topic = o.topic)) := by
  intro b
  have hsound : ((System.new config hasWal).run E acts).Sound :=
    (Sound.new config hasWal).run acts
  have hhome := hsound.home_of_live hlive
  have hstores := subscribers_run Subscriber.offered_rule E config hasWal acts x sub hx
  refine ⟨Broker.showsOffers hhome hx hstores, fun o _ => Broker.names hhome hx o, ?_⟩
  intro hfit o ho
  have hnew : (System.new config hasWal).OffersHeard := fun _ _ _ hreg => by cases hreg
  obtain ⟨home, reg, -, hreg, rfl⟩ := hlive.record
  have hledger : b.ledger? x = some sub.ledger := by
    rw [Broker.ledger?, hx]
    rfl
  have hhears := hnew.run (Sound.new config hasWal) hfit x reg sub.ledger hreg hledger o ho
  refine ⟨hhears, fun hexact => ?_⟩
  rcases hhears with htopic | ⟨p, hp, -⟩
  · exact htopic
  · rw [hexact] at hp
    cases hp

/-- A logged message on `a.b` for one subscription that polls. -/
def loggedOnce (subscribe : BrokerAction) : List BrokerAction :=
  [subscribe, .publish 0 none ⟨some 5, "a.b", [7], .atLeastOnce⟩ (some 1) none]

/-- The subscription of the topic itself. -/
theorem System.topic_kept_iff_exact :
    let acts := loggedOnce (.subscribe "c" "a.b" .atLeastOnce none .poll none)
    let b := ((System.new .default true).run bareExternals acts).broker
    ∃ m, (b.poll 0 1).2 = some m ∧ m.topic = "a.b" := by
  intro acts b
  have hsub : ((b.subscribers.lookup 1).map Subscriber.offered) =
      some [⟨some 5, "a.b", [7], .atLeastOnce⟩] := by decide +kernel
  have hpoll : (b.poll 0 1).2.isSome = true := by decide +kernel
  obtain ⟨sub, hx, hoffered⟩ := Option.map_eq_some_iff.mp hsub
  obtain ⟨m, hm⟩ := Option.isSome_iff_exists.mp hpoll
  refine ⟨m, hm, ?_⟩
  obtain ⟨-, hnames, hexact⟩ := System.topic_kept_iff bareExternals .default true acts 1
    (.exact "a.b" none) sub ⟨by decide +kernel, by decide +kernel⟩ hx
  have hmem : (⟨some 5, "a.b", [7], .atLeastOnce⟩ : Offer) ∈ sub.offered := by simp [hoffered]
  have hfit : (System.new .default true).HandlesFit bareExternals acts :=
    ⟨trivial, System.publishesTo_none _ _, trivial⟩
  exact ((hnames _ hmem).polled 0 m hm).mpr ((hexact hfit _ hmem).2 rfl)

/-- **A wildcard subscription renames its messages**: published on `a.b`, the
message is polled as one of `a.*`, dropped to `a.*.dlq` and acked under `a.*`. -/
theorem System.topic_renamed :
    let acts := loggedOnce (.subscribePattern "c" "a.*" .atLeastOnce none .poll)
    let b := ((System.new .default true).run bareExternals acts).broker
    (b.poll 0 1).2 = some ⟨1, "a.*", [7], .atLeastOnce, some 1⟩ ∧
      b.ownLetters 5 = [(1, "a.*.dlq", [7])] ∧
      ((b.poll 0 1).1.ack 1 1).bind Prod.snd = some ⟨"c", "a.*", 5⟩ ∧
      ((b.poll 0 1).1.ack 1 1).map (fun out => out.1.ackCursors.pairs) =
        some [(("c", "a.*"), 5)] := by
  decide +kernel

end BlipMQ.Core
