import BlipMQ.Core.Targets
import BlipMQ.Net.Handler

/-!
# Net — every message once

A publish reaches each subscription that wants it exactly once, but for the
wildcard subscriptions whose pattern is also the name of the topic: such a
name can be published to, and it reaches them from two places.
-/

namespace BlipMQ.Core

/-! ## Exactly once -/

namespace System

/-- The message reaches whom it should, once: who is in no group gets what it
wants, one member of each group on the topic gets it, and nobody else. -/
structure OfferedOnce (s : System) (b' : Broker) (o : Offer) : Prop where
  broadcast : ∀ x i, s.Live x i → i.group = none →
    s.broker.Offered b' o x (if i.wants o.topic then 1 else 0)
  groups : ∀ g, (∃ x, s.Live x (.exact o.topic (some g))) →
    ∃ x, s.Live x (.exact o.topic (some g)) ∧
      ∀ y, s.Live y (.exact o.topic (some g)) → s.broker.Offered b' o y (if y = x then 1 else 0)
  elsewhere : ∀ x t g, s.Live x (.exact t (some g)) → t ≠ o.topic → s.broker.Offered b' o x 0
  gone : ∀ x, x ∉ s.broker.subscriptions → b'.ledger? x = s.broker.ledger? x

section Once

variable {E : Externals} {s : System} {o : Offer} {now : Nat} {ttl : Option Nat}
  {key : Option Bytes} {x : Nat} {i : Interest}

/-- If no name is doubled, every subscription gets what it should. -/
theorem Sound.offeredOnce (h : s.Sound) (hpresent : s.broker.Present)
    (hrunning : s.broker.shuttingDown = false)
    (hsingle : ∀ x i, s.Live x i → i.doubles o.topic = false) :
    s.OfferedOnce (s.broker.publishInner E now none o ttl key) o := by
  have hoffers : ∀ x i, s.Live x i → s.broker.Offered (s.broker.publishInner E now none o ttl key)
      o x ((s.broker.targets E o.topic key).count x) := fun x i hlive => hlive.offered hpresent
  refine ⟨?_, ?_, ?_, ?_⟩
  · intro x i hlive hgroup
    have hoffered := hoffers x i hlive
    rw [h.count_broadcast hrunning hlive hgroup, hsingle x i hlive] at hoffered
    exact hoffered
  · rintro g ⟨x, hx⟩
    obtain ⟨y, hy, hchosen⟩ := h.exists_chosen E key hx
    refine ⟨y, hy, fun z hz => ?_⟩
    have hoffered := hoffers z _ hz
    rw [h.count_grouped hrunning hz] at hoffered
    simpa only [hchosen z hz] using hoffered
  · intro x t g hlive hne
    have hoffered := hoffers x _ hlive
    rwa [h.count_grouped hrunning hlive, if_neg (h.not_chosen hlive hne)] at hoffered
  · intro x hx
    rw [(Broker.publishInner_spec ..).ledger,
      Broker.count_gone h.consistent hrunning (AList.lookup_eq_none.mpr hx)]
    simp

end Once

/-- **When a publish reaches each matching subscription exactly once**: in every
state of every run, for every topic name, if and only if no live wildcard
subscription has the name itself as its pattern. -/
theorem publish_offered_once_iff (E : Externals) (config : BrokerConfig) (hasWal : Bool)
    (acts : List BrokerAction) (now : Nat) (o : Offer) (ttl : Option Nat) (key : Option Bytes)
    (hrunning : ((System.new config hasWal).run E acts).broker.shuttingDown = false) :
    let s := (System.new config hasWal).run E acts
    s.OfferedOnce (s.broker.publishInner E now none o ttl key) o ↔
      ∀ x i, s.Live x i → i.doubles o.topic = false := by
  intro s
  have hsound : s.Sound := (Sound.new config hasWal).run acts
  have hpresent : s.broker.Present := present_run E config hasWal acts
  refine ⟨fun honce x i hlive => ?_, hsound.offeredOnce hpresent hrunning⟩
  by_contra hdoubles
  rw [Bool.not_eq_false] at hdoubles
  obtain ⟨hgroup, hwants⟩ := hsound.wants_of_doubles hlive hdoubles
  have hone := honce.broadcast x i hlive hgroup
  have htwo : s.broker.Offered (s.broker.publishInner E now none o ttl key) o x
      ((s.broker.targets E o.topic key).count x) := hlive.offered hpresent
  rw [hsound.count_broadcast hrunning hlive hgroup, hwants, hdoubles] at htwo
  rw [hwants] at hone
  exact absurd (hone.unique htwo) (by decide)

/-- A subscriber of the topic, a group of two, and a wildcard that matches. -/
theorem publish_offered_once_iff_mixed :
    let s := (System.new .default false).run bareExternals
      [.subscribe "c" "a" .atMostOnce none .poll none,
        .subscribe "c" "a" .atMostOnce none .poll (some "g"),
        .subscribe "d" "a" .atMostOnce none .poll (some "g"),
        .subscribePattern "c" "*" .atMostOnce none .poll]
    s.broker.shuttingDown = false ∧
      s.OfferedOnce (s.broker.publishInner bareExternals 0 none ⟨none, "a", [7], .atMostOnce⟩ none
        none) ⟨none, "a", [7], .atMostOnce⟩ := by
  intro s
  have hrunning : s.broker.shuttingDown = false := by decide +kernel
  have hsingle : ∀ e ∈ s.registrations.entries, e.2.interest.doubles "a" = false := by
    decide +kernel
  refine ⟨hrunning, (publish_offered_once_iff _ _ _ _ _ _ _ _ hrunning).mpr ?_⟩
  intro x i hlive
  obtain ⟨home, reg, -, hreg, rfl⟩ := hlive.record
  exact hsingle ⟨x, reg⟩ (AList.mem_lookup_iff.mp hreg)

/-- The name `a.*` is accepted as a topic, and the subscription to the pattern
`a.*` is offered what is published there twice. -/
theorem pattern_name_offered_twice :
    let s := (System.new .default false).run bareExternals
      [.subscribePattern "c" "a.*" .atMostOnce none .poll]
    let o : Offer := ⟨none, "a.*", [7], .atMostOnce⟩
    let b' := s.broker.publishInner bareExternals 0 none o none none
    Net.validateTopic o.topic = none ∧ s.broker.Offered b' o 1 2 ∧ ¬ s.OfferedOnce b' o := by
  intro s o b'
  have htwice : s.broker.Offered b' o 1 2 :=
    ⟨⟨"c", ⟨"a.*", none⟩, [], []⟩, by decide +kernel, by decide +kernel⟩
  refine ⟨by decide +kernel, htwice, fun honce => ?_⟩
  have hlive : s.Live 1 (.pattern ⟨"a.*", [.literal "a", .wildcard], false⟩) :=
    ⟨by decide +kernel, by decide +kernel⟩
  have hone := honce.broadcast 1 _ hlive rfl
  exact absurd (htwice.unique hone) (by decide +kernel)

end System

end BlipMQ.Core
