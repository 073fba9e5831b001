import BlipMQ.Core.Targets

/-!
# Broker — dead letters

What a queue drops in a tick is published as a dead letter, under the name
of the topic the subscription is recorded under and the suffix. A
subscription whose own topic ends in the suffix is passed over, so that it
does not get its dead letters back. The guard looks at the recorded topic
only; a wildcard subscription is recorded under its pattern, and the pattern
may match the name of the dead-letter topic.
-/

namespace BlipMQ.Core

namespace Broker

/-! ## Whose letter it is -/

/-- The dead letters of one subscription. -/
def lettersOf (b : Broker) (now : Nat) (e : Sigma fun _ : Nat => SubscriptionRef) :
    List (String × Bytes) :=
  match b.subscribers.lookup e.1 with
  | none => []
  | some sub => deadLetters b.config.dlqSuffix e.2.topic
      (sub.queue.maintenanceTick now b.config.maxRetries).2

/-- The dead letters of a tick, each with the subscription that dropped it. -/
def ownLetters (b : Broker) (now : Nat) : List (Nat × (String × Bytes)) :=
  b.subscriptions.entries.flatMap fun e => (b.lettersOf now e).map (e.1, ·)

section Letters

variable {b : Broker} {now : Nat}

theorem tickOne_eq (now : Nat) (s : Broker × List (String × Bytes))
    (e : Sigma fun _ : Nat => SubscriptionRef) :
    (tickOne now s e).2 = s.2 ++ s.1.lettersOf now e ∧
      (tickOne now s e).1.config = s.1.config ∧
      ∀ x, x ≠ e.1 → (tickOne now s e).1.subscribers.lookup x = s.1.subscribers.lookup x := by
  unfold tickOne lettersOf
  cases s.1.subscribers.lookup e.1 with
  | none => exact ⟨(List.append_nil _).symm, rfl, fun _ _ => rfl⟩
  | some sub => exact ⟨rfl, rfl, fun x hx => AList.lookup_insert_ne hx⟩

/-- Each subscription is ticked once, so its letters are those of before the walk. -/
theorem letters_foldl_tickOne {entries : List (Sigma fun _ : Nat => SubscriptionRef)}
    (hnd : entries.NodupKeys) (s : Broker × List (String × Bytes))
    (hconfig : s.1.config = b.config)
    (hsame : ∀ e ∈ entries, s.1.subscribers.lookup e.1 = b.subscribers.lookup e.1) :
    (entries.foldl (tickOne now) s).2 = s.2 ++ entries.flatMap (b.lettersOf now) := by
  induction entries generalizing s with
  | nil => exact (List.append_nil _).symm
  | cons e entries ih =>
    obtain ⟨hnotin, hnd⟩ := List.nodupKeys_cons.mp hnd
    obtain ⟨hletters, hconfig', hothers⟩ := tickOne_eq now s e
    have hown : s.1.lettersOf now e = b.lettersOf now e := by
      unfold lettersOf
      rw [hsame e (by simp), hconfig]
    have hrest : ∀ e' ∈ entries, (tickOne now s e).1.subscribers.lookup e'.1 =
        b.subscribers.lookup e'.1 := by
      intro e' he'
      have hne : e'.1 ≠ e.1 := fun heq => hnotin (heq ▸ List.mem_keys_of_mem he')
      rw [hothers e'.1 hne, hsame e' (by simp [he'])]
    rw [List.foldl_cons, ih hnd _ (hconfig'.trans hconfig) hrest, hletters, hown,
      List.flatMap_cons, List.append_assoc]

theorem letters_tickQueues : (b.tickQueues now).2 = (b.ownLetters now).map Prod.snd := by
  rw [tickQueues, letters_foldl_tickOne b.subscriptions.nodupKeys (b, []) rfl fun _ _ => rfl,
    List.nil_append, ownLetters, List.map_flatMap]
  congr 1
  funext e
  simp

/-- A letter goes to another topic than the one the subscription is recorded under. -/
theorem topic_ne_of_mem_lettersOf {e : Sigma fun _ : Nat => SubscriptionRef}
    {letter : String × Bytes} (h : letter ∈ b.lettersOf now e) :
    ∃ suffix, b.config.dlqSuffix = some suffix ∧ letter.1 = e.2.topic ++ suffix ∧
      letter.1 ≠ e.2.topic := by
  unfold lettersOf at h
  split at h
  · cases h
  · unfold deadLetters at h
    split at h
    · cases h
    · rename_i suffix hsuffix
      split at h
      · cases h
      · rename_i hguard
        obtain ⟨d, -, rfl⟩ := List.mem_map.mp h
        refine ⟨suffix, hsuffix, rfl, fun heq => hguard ?_⟩
        have hnil : suffix.toList = [] := by
          have hlist := congrArg String.toList heq
          rw [String.toList_append] at hlist
          exact List.append_right_eq_self.mp hlist
        rw [hnil]
        rfl

/-! ## The publishes -/

/-- The broker after the walk and the publishes of these letters. -/
def afterLetters (E : Externals) (clock : Nat) (b : Broker) (now : Nat)
    (letters : List (Nat × (String × Bytes))) : Broker :=
  letters.foldl (fun b p => publishDeadLetter E clock b p.2) (b.tickQueues now).1

variable {E : Externals} {clock : Nat}

/-- The tick publishes the letters one after the other. -/
theorem maintenanceTick_eq_afterLetters :
    b.maintenanceTick E now clock = b.afterLetters E clock now (b.ownLetters now) := by
  unfold maintenanceTick afterLetters
  dsimp only
  rw [letters_tickQueues, List.foldl_map]

theorem afterLetters_snoc (letters : List (Nat × (String × Bytes)))
    (p : Nat × (String × Bytes)) :
    b.afterLetters E clock now (letters ++ [p]) =
      publishDeadLetter E clock (b.afterLetters E clock now letters) p.2 := by
  rw [afterLetters, List.foldl_append]
  rfl

theorem afterLetters_drops (h : b.registry.Consistent)
    (letters : List (Nat × (String × Bytes))) :
    Drops b (b.afterLetters E clock now letters) := by
  have htick : (b.tickQueues now).1.registry = b.registry := registry_tickQueues now
  exact (Drops.foldl (fun b p hb => publishInner_drops hb ..) letters (htick.symm ▸ h)).congr_left
    htick

theorem Present.afterLetters (h : b.Present) (letters : List (Nat × (String × Bytes))) :
    (b.afterLetters E clock now letters).Present := by
  have htick : (b.tickQueues now).1.Present :=
    tickQueues_invariant h now fun _ _ _ hb _ => hb.insert _ _
  exact htick.foldl fun b p hb => (publishInner_publishes ..).present hb

end Letters

/-- In the tick a dead letter with this payload is offered to the subscription. -/
def FedBack (E : Externals) (b : Broker) (now clock x : Nat) (payload : Bytes) : Prop :=
  ∃ before y topic after, b.ownLetters now = before ++ (y, topic, payload) :: after ∧
    ∃ n, 0 < n ∧ (b.afterLetters E clock now before).Offered
      (b.afterLetters E clock now (before ++ [(y, topic, payload)]))
      ⟨none, topic, payload, .atMostOnce⟩ x n

end Broker

namespace System

/-- A publish on the topic reaches the subscription: through its pattern, as a
subscriber of the topic, or as the chosen member of a group on it. -/
structure Reaches (E : Externals) (s : System) (b : Broker) (topic : String) (x : Nat) :
    Prop where
  running : b.shuttingDown = false
  live : x ∈ b.subscriptions
  route : (∃ reg p, s.registrations.lookup x = some reg ∧ reg.interest.wildcard = some p ∧
      p.matches topic = true) ∨
    b.subscriptions.lookup x = some ⟨topic, none⟩ ∨ x ∈ b.chosen E topic none

/-- No dead letter of the tick is routed to the subscription. -/
def NoLetterReaches (E : Externals) (s : System) (now clock x : Nat) : Prop :=
  ∀ before y letter after, s.broker.ownLetters now = before ++ (y, letter) :: after →
    ¬ s.Reaches E (s.broker.afterLetters E clock now before) letter.1 x

section FedBack

variable {E : Externals} {s : System} {b : Broker} {topic : String} {x : Nat}

theorem Sound.reaches_iff (h : s.Sound) (hd : s.broker.Drops b) :
    s.Reaches E b topic x ↔ 0 < (b.targets E topic none).count x := by
  have hsound : (⟨b, s.registrations⟩ : System).Sound := h.drops hd rfl
  cases hrunning : b.shuttingDown with
  | true =>
    refine iff_of_false (fun hr => ?_) ?_
    · rw [hr.running] at hrunning
      cases hrunning
    · simp [Broker.targets, hrunning]
  | false =>
    cases hhome : b.subscriptions.lookup x with
    | none =>
      refine iff_of_false (fun hr => ?_) ?_
      · exact absurd hr.live (AList.lookup_eq_none.mp hhome)
      · rw [Broker.count_gone hsound.consistent hrunning hhome]
        exact Nat.lt_irrefl 0
    | some home =>
      obtain ⟨reg, hreg, -⟩ := hsound.registered x home hhome
      have hmem : x ∈ b.subscriptions := AList.lookup_isSome.mp (by rw [hhome]; rfl)
      have hlive : (⟨b, s.registrations⟩ : System).Live x reg.interest :=
        ⟨hmem, by rw [hreg]; rfl⟩
      have hwild : x ∈ b.wildcardTargets topic ↔ ∃ reg p, s.registrations.lookup x = some reg ∧
          reg.interest.wildcard = some p ∧ p.matches topic = true := by
        refine (hsound.mem_wildcardTargets hlive).trans ⟨?_, ?_⟩
        · rintro ⟨p, hp, hmatches⟩
          exact ⟨reg, p, hreg, hp, hmatches⟩
        · rintro ⟨reg', p, hreg', hp, hmatches⟩
          rw [hreg] at hreg'
          cases hreg'
          exact ⟨p, hp, hmatches⟩
      have hcount : 0 < (b.targets E topic none).count x ↔ x ∈ b.wildcardTargets topic ∨
          b.subscriptions.lookup x = some ⟨topic, none⟩ ∨ x ∈ b.chosen E topic none := by
        rw [Broker.count_targets hsound.consistent hrunning]
        by_cases hw : x ∈ b.wildcardTargets topic <;>
          by_cases hb : b.subscriptions.lookup x = some ⟨topic, none⟩ <;>
          by_cases hc : x ∈ b.chosen E topic none <;> simp [hw, hb, hc]
      rw [hcount, hwild]
      exact ⟨fun hr => hr.route, fun hroute => ⟨hrunning, hmem, hroute⟩⟩

/-- Offered at all is offered as a target. -/
theorem offered_pos_iff (hpresent : b.Present) (hsound : s.Sound) (hd : s.broker.Drops b)
    (clock : Nat) (payload : Bytes) :
    (∃ n, 0 < n ∧ b.Offered (b.publishDeadLetter E clock (topic, payload))
      ⟨none, topic, payload, .atMostOnce⟩ x n) ↔ s.Reaches E b topic x := by
  have htargets : ∀ l, b.ledger? x = some l →
      b.Offered (b.publishDeadLetter E clock (topic, payload)) ⟨none, topic, payload, .atMostOnce⟩ x
        ((b.targets E topic none).count x) := by
    intro l hl
    refine ⟨l, hl, ?_⟩
    rw [Broker.publishDeadLetter, (Broker.publishInner_spec ..).ledger, hl]
    rfl
  rw [hsound.reaches_iff hd]
  constructor
  · rintro ⟨n, hn, hoffered⟩
    obtain ⟨l, hl, -⟩ := id hoffered
    rwa [hoffered.unique (htargets l hl)] at hn
  · intro hcount
    have hlive := ((hsound.reaches_iff hd).mpr hcount).live
    obtain ⟨l, hl⟩ := Option.isSome_iff_exists.mp (hpresent x (AList.lookup_isSome.mpr hlive))
    exact ⟨_, hcount, htargets l hl⟩

/-- The record of a subscription that has its own letter names another topic. -/
theorem home_of_ownLetter {now : Nat} {payload : Bytes} {home : SubscriptionRef}
    (hmem : (x, topic, payload) ∈ s.broker.ownLetters now) (hd : s.broker.Drops b)
    (hhome : b.subscriptions.lookup x = some home) : home.topic ≠ topic := by
  obtain ⟨e, he, hletter⟩ := List.mem_flatMap.mp hmem
  obtain ⟨letter, hletter, heq⟩ := List.mem_map.mp hletter
  cases heq
  obtain ⟨_, -, -, hne⟩ := Broker.topic_ne_of_mem_lettersOf hletter
  have hbefore : s.broker.subscriptions.lookup e.1 = some home := by
    obtain ⟨ids, hids⟩ := hd
    have hforget : b.subscriptions.lookup e.1 =
        if e.1 ∈ ids then none else s.broker.subscriptions.lookup e.1 :=
      congrFun (congrArg Registry.subscriptions hids) e.1
    rw [hhome] at hforget
    split at hforget
    · cases hforget
    · exact hforget.symm
  rw [AList.mem_lookup_iff.mpr he] at hbefore
  cases hbefore
  exact fun heq => hne heq.symm

end FedBack

/-- **When a subscription gets a dropped message back.** In every tick of every
state of every run, a subscription is offered a dead letter with some payload
just if one of the letters with that payload reaches it. The letters of its own
drops reach it just if it is a wildcard subscription and its pattern matches
the dead-letter topic that is named after the pattern. -/
theorem dead_letter_fed_back_iff (E : Externals) (config : BrokerConfig) (hasWal : Bool)
    (acts : List BrokerAction) (now clock x : Nat) (payload : Bytes) :
    let s := (System.new config hasWal).run E acts
    (s.broker.FedBack E now clock x payload ↔
      ∃ before y topic after, s.broker.ownLetters now = before ++ (y, topic, payload) :: after ∧
        s.Reaches E (s.broker.afterLetters E clock now before) topic x) ∧
    ∀ before topic after, s.broker.ownLetters now = before ++ (x, topic, payload) :: after →
      let b := s.broker.afterLetters E clock now before
      (s.Reaches E b topic x ↔ b.shuttingDown = false ∧ x ∈ b.subscriptions ∧
        ∃ reg p, s.registrations.lookup x = some reg ∧ reg.interest.wildcard = some p ∧
          p.matches topic = true) := by
  intro s
  have hsound : s.Sound := (Sound.new config hasWal).run acts
  have hpresent : s.broker.Present := present_run E config hasWal acts
  refine ⟨?_, ?_⟩
  · unfold Broker.FedBack
    refine exists_congr fun before => exists_congr fun y => exists_congr fun topic =>
      exists_congr fun after => and_congr_right fun _ => ?_
    rw [Broker.afterLetters_snoc]
    exact offered_pos_iff (hpresent.afterLetters before) hsound
      (Broker.afterLetters_drops hsound.consistent before) clock payload
  · intro before topic after hsplit b
    have hd : s.broker.Drops b := Broker.afterLetters_drops hsound.consistent before
    have hmem : (x, topic, payload) ∈ s.broker.ownLetters now := by
      rw [hsplit]
      exact List.mem_append_right _ List.mem_cons_self
    constructor
    · rintro ⟨hrunning, hlive, hroute⟩
      refine ⟨hrunning, hlive, ?_⟩
      rcases hroute with hwild | hhome | hchosen
      · exact hwild
      · exact absurd rfl (home_of_ownLetter hmem hd hhome)
      · obtain ⟨g, hhome⟩ := Broker.group_of_mem_chosen (hd.consistent hsound.consistent) hchosen
        exact absurd rfl (home_of_ownLetter hmem hd hhome)
    · rintro ⟨hrunning, hlive, hwild⟩
      exact ⟨hrunning, hlive, .inl hwild⟩

/-- One message for everybody, gone in the first tick. -/
def droppedOnce (pattern : String) : List BrokerAction :=
  [.subscribePattern "c" pattern .atMostOnce none .poll,
    .publish 0 none ⟨none, "a.b", [7], .atMostOnce⟩ (some 1) none]

/-- The pattern `a.*` has two tokens, its dead-letter topic three. -/
theorem dead_letter_fed_back_iff_two_tokens :
    let s := (System.new .default false).run bareExternals (droppedOnce "a.*")
    s.broker.ownLetters 5 = [(1, "a.*.dlq", [7])] ∧
      ¬ s.broker.FedBack bareExternals 5 5 1 [7] := by
  intro s
  have hletters : s.broker.ownLetters 5 = [(1, "a.*.dlq", [7])] := by decide +kernel
  have hpattern : (s.registrations.lookup 1).map
      (·.interest.wildcard.any (·.matches "a.*.dlq")) = some false := by decide +kernel
  refine ⟨hletters, fun hfed => ?_⟩
  obtain ⟨hiff, hown⟩ :=
    dead_letter_fed_back_iff bareExternals .default false (droppedOnce "a.*") 5 5 1 [7]
  obtain ⟨before, y, topic, after, hsplit, hreaches⟩ := hiff.mp hfed
  cases before with
  | nil =>
    cases hletters.symm.trans hsplit
    obtain ⟨-, -, reg, p, hreg, hp, hmatches⟩ := (hown [] "a.*.dlq" [] hletters).mp hreaches
    rw [hreg, Option.map_some, hp, Option.any_some, hmatches] at hpattern
    cases hpattern
  | cons letter before =>
    have hlength := congrArg List.length (hletters.symm.trans hsplit)
    simp at hlength

/-- **The pattern `>` gets its dead letter back**: the message waits again, now as
one of the topic `>.dlq`. -/
theorem dead_letter_fed_back_to_all :
    let s := (System.new .default false).run bareExternals (droppedOnce ">")
    (s.broker.subscribers.lookup 1).map (·.queue.waiting.map QueueEntry.payload) = some [[7]] ∧
      ((s.broker.tickQueues 5).1.subscribers.lookup 1).map
        (·.queue.waiting.map QueueEntry.payload) = some [] ∧
      s.broker.ownLetters 5 = [(1, ">.dlq", [7])] ∧
      ((s.broker.maintenanceTick bareExternals 5 5).subscribers.lookup 1).map
        (·.queue.waiting.map QueueEntry.payload) = some [[7]] := by
  decide +kernel

end System

end BlipMQ.Core
