import BlipMQ.Core.Consistency

/-!
# Broker — whom a publish reaches

The targets of a publish come from three places: the broadcast subscribers
of the topic, one member of each of its groups, and the wildcard
subscriptions that match. A wildcard subscription is also a broadcast
subscriber of a topic, the one that is named like its pattern.
-/

namespace BlipMQ.Core

/-! ## What each source gives -/

namespace ConsumerGroup

variable {cg : ConsumerGroup} {x : Nat}

theorem choose_of_nil (ahash : Bytes → Nat) (key : Option Bytes) (h : cg.members = []) :
    (cg.choose ahash key).1 = none := by
  unfold choose
  rw [if_pos h]

/-- A group with members gives one of them. -/
theorem choose_some (ahash : Bytes → Nat) (key : Option Bytes) (h : cg.members ≠ []) :
    ∃ x ∈ cg.members, (cg.choose ahash key).1 = some x := by
  have hget : ∀ i, ∃ x ∈ cg.members, cg.members[i % cg.members.length]? = some x := by
    intro i
    have hlt : i % cg.members.length < cg.members.length :=
      Nat.mod_lt _ (List.length_pos_iff.mpr h)
    exact ⟨_, List.getElem_mem hlt, List.getElem?_eq_getElem hlt⟩
  unfold choose
  rw [if_neg h]
  split
  · exact hget _
  · split
    · exact hget _
    · exact hget _

theorem mem_of_choose {ahash : Bytes → Nat} {key : Option Bytes}
    (h : (cg.choose ahash key).1 = some x) : x ∈ cg.members := by
  by_cases hnil : cg.members = []
  · rw [choose_of_nil ahash key hnil] at h
    cases h
  · obtain ⟨y, hy, heq⟩ := choose_some ahash key hnil
    rw [h] at heq
    cases heq
    exact hy

/-- The number that picks the member. -/
def number (ahash : Bytes → Nat) (partitionKey : Option Bytes) (cg : ConsumerGroup) : Nat :=
  match partitionKey with
  | none => cg.nextIdx
  | some key => if key = [] then cg.nextIdx else ahash key

theorem choose_fst (h : cg.members ≠ []) (ahash : Bytes → Nat) (key : Option Bytes) :
    (cg.choose ahash key).1 = cg.members[cg.number ahash key % cg.members.length]? := by
  unfold choose number
  rw [if_neg h]
  cases key with
  | none => rfl
  | some key =>
    dsimp only
    split <;> rfl

end ConsumerGroup

namespace Broker

variable {E : Externals} {b : Broker} {t : String} {key : Option Bytes} {x : Nat}

/-- The chosen members of the groups on a topic. -/
def chosen (E : Externals) (b : Broker) (t : String) (key : Option Bytes) : List Nat :=
  match b.topics.lookup t with
  | none => []
  | some topic => topic.chosen E.ahash key

/-- The targets by their source. -/
theorem snapshot_eq (E : Externals) (b : Broker) (t : String) (key : Option Bytes) :
    b.snapshot E (b.record t none) t key =
      b.members t none ++ b.chosen E t key ++ b.wildcardTargets t := by
  unfold snapshot record members chosen
  cases h : b.topics.lookup t with
  | none => rfl
  | some topic =>
    simp only [Option.map_some, Option.bind_some, h]
    rfl

theorem mem_chosen : x ∈ b.chosen E t key ↔ ∃ topic g cg, b.topics.lookup t = some topic ∧
    topic.consumerGroups.lookup g = some cg ∧ (cg.choose E.ahash key).1 = some x := by
  unfold chosen
  cases h : b.topics.lookup t with
  | none => simp
  | some topic =>
    simp only [Topic.chosen, List.mem_filterMap, Option.some.injEq]
    constructor
    · rintro ⟨⟨g, cg⟩, hmem, hx⟩
      exact ⟨topic, g, cg, rfl, AList.mem_lookup_iff.mpr hmem, hx⟩
    · rintro ⟨_, g, cg, rfl, hl, hx⟩
      exact ⟨⟨g, cg⟩, AList.mem_lookup_iff.mp hl, hx⟩

variable {g : String}

theorem members_group {topic : Topic} {cg : ConsumerGroup} (ht : b.topics.lookup t = some topic)
    (hg : topic.consumerGroups.lookup g = some cg) : b.members t (some g) = cg.members := by
  rw [members, ht]
  show ((topic.consumerGroups.lookup g).map _).getD [] = _
  rw [hg]
  rfl

/-- Who is chosen is a member of a group on the topic. -/
theorem group_of_mem_chosen (h : b.registry.Consistent) (hx : x ∈ b.chosen E t key) :
    ∃ g, b.subscriptions.lookup x = some ⟨t, some g⟩ := by
  obtain ⟨topic, g, cg, ht, hg, hpick⟩ := mem_chosen.mp hx
  refine ⟨g, h.mem_members.mp ?_⟩
  show x ∈ b.members t (some g)
  rw [members_group ht hg]
  exact ConsumerGroup.mem_of_choose hpick

theorem chosen_nodup (h : b.registry.Consistent) : (b.chosen E t key).Nodup := by
  cases ht : b.topics.lookup t with
  | none =>
    unfold chosen
    rw [ht]
    exact .nil
  | some topic =>
    have hpairs := List.nodupKeys_iff_pairwise.mp topic.consumerGroups.nodupKeys
    have hmember : ∀ e ∈ topic.consumerGroups.entries, ∀ x,
        (e.2.choose E.ahash key).1 = some x → b.subscriptions.lookup x = some ⟨t, some e.1⟩ := by
      intro e he x hx
      have hg : topic.consumerGroups.lookup e.1 = some e.2 := AList.mem_lookup_iff.mpr he
      refine h.mem_members.mp ?_
      show x ∈ b.members t (some e.1)
      rw [members_group ht hg]
      exact ConsumerGroup.mem_of_choose hx
    unfold chosen Topic.chosen
    rw [ht]
    refine List.pairwise_filterMap.mpr (hpairs.imp_of_mem ?_)
    rintro e e' he he' hne x hx y hy rfl
    have hhome := hmember e he x hx
    rw [hmember e' he' x hy] at hhome
    exact hne (by simpa using hhome.symm)

variable (E key) in
/-- Exactly one member of a group on the topic is chosen. -/
theorem exists_chosen (h : b.registry.Consistent) (hmembers : b.members t (some g) ≠ []) :
    ∃ x ∈ b.members t (some g), ∀ y ∈ b.members t (some g), y ∈ b.chosen E t key ↔ y = x := by
  cases ht : b.topics.lookup t with
  | none =>
    rw [members, ht] at hmembers
    exact absurd rfl hmembers
  | some topic =>
    cases hg : topic.consumerGroups.lookup g with
    | none =>
      rw [members, ht] at hmembers
      change ((topic.consumerGroups.lookup g).map _).getD [] ≠ [] at hmembers
      rw [hg] at hmembers
      exact absurd rfl hmembers
    | some cg =>
      rw [members_group ht hg] at hmembers ⊢
      obtain ⟨x, hx, hpick⟩ := ConsumerGroup.choose_some E.ahash key hmembers
      refine ⟨x, hx, fun y hy => ⟨fun hchosen => ?_, ?_⟩⟩
      · -- whoever chose `y` is the group `y` is a member of
        obtain ⟨topic', g', cg', ht', hg', hpick'⟩ := mem_chosen.mp hchosen
        rw [ht] at ht'
        cases ht'
        have hplace : b.subscriptions.lookup y = some ⟨t, some g⟩ :=
          h.mem_members.mp (show y ∈ b.members t (some g) by rwa [members_group ht hg])
        have hplace' : b.subscriptions.lookup y = some ⟨t, some g'⟩ :=
          h.mem_members.mp (show y ∈ b.members t (some g') by
            rw [members_group ht hg']
            exact ConsumerGroup.mem_of_choose hpick')
        have hsame : g = g' := by
          rw [hplace] at hplace'
          simpa using hplace'
        subst hsame
        rw [hg] at hg'
        cases hg'
        rw [hpick] at hpick'
        exact (Option.some.inj hpick').symm
      · rintro rfl
        exact mem_chosen.mpr ⟨topic, g, cg, ht, hg, hpick⟩

def group? (b : Broker) (t g : String) : Option ConsumerGroup :=
  (b.topics.lookup t).bind (·.consumerGroups.lookup g)

theorem members_eq (b : Broker) (t g : String) :
    b.members t (some g) = ((b.group? t g).map ConsumerGroup.members).getD [] := by
  unfold members group?
  cases b.topics.lookup t with
  | none => rfl
  | some topic => rfl

/-- The member that the number picks is the one that is chosen. -/
theorem chosen_iff (h : b.registry.Consistent) {cg : ConsumerGroup}
    (hgroup : b.group? t g = some cg)
    (hx : cg.members[cg.number E.ahash key % cg.members.length]? = some x) :
    x ∈ b.members t (some g) ∧
      ∀ y ∈ b.members t (some g), y ∈ b.chosen E t key ↔ y = x := by
  obtain ⟨topic, ht, hg⟩ := Option.bind_eq_some_iff.mp hgroup
  have hmem : x ∈ cg.members := List.mem_of_getElem? hx
  have hne : cg.members ≠ [] := List.ne_nil_of_mem hmem
  have hmembers : b.members t (some g) = cg.members := members_group ht hg
  have hchosen : x ∈ b.chosen E t key :=
    mem_chosen.mpr ⟨topic, g, cg, ht, hg, (ConsumerGroup.choose_fst hne E.ahash key).trans hx⟩
  obtain ⟨x₀, -, honly⟩ := exists_chosen E key h (hmembers ▸ hne)
  have hsame : x = x₀ := (honly x (hmembers ▸ hmem)).mp hchosen
  rw [hmembers]
  refine ⟨hmem, fun y hy => ?_⟩
  rw [hsame]
  exact honly y (hmembers ▸ hy)

theorem wildcardTargets_eq (h : b.registry.Consistent) : b.wildcardTargets t =
    (b.wildcardSubs.filter fun p => p.1.matches t).map Prod.snd := by
  have hlen : b.wildcardSubsLen = b.wildcardSubs.length := h.wildcardsLen
  unfold wildcardTargets
  rw [hlen]
  split
  · rw [← List.filterMap_eq_map, List.filterMap_filter]
    refine List.filterMap_congr fun p hp => ?_
    have hlive : (b.subscriptions.lookup p.2).isSome = true := h.wildcards_live p hp
    simp only [hlive, Bool.and_true, Function.comp_apply]
  · rename_i hzero
    have hnil : b.wildcardSubs = [] := List.eq_nil_of_length_eq_zero (by omega)
    rw [hnil]
    rfl

theorem wildcardTargets_nodup (h : b.registry.Consistent) : (b.wildcardTargets t).Nodup := by
  rw [wildcardTargets_eq h]
  exact h.wildcards_nodup.sublist (List.filter_sublist.map _)

theorem mem_wildcardTargets (h : b.registry.Consistent) :
    x ∈ b.wildcardTargets t ↔ ∃ p : SubjectPattern, (p, x) ∈ b.wildcardSubs ∧
      p.matches t = true := by
  rw [wildcardTargets_eq h, List.mem_map]
  constructor
  · rintro ⟨⟨p, y⟩, hp, rfl⟩
    exact ⟨p, List.mem_filter.mp hp⟩
  · rintro ⟨p, hp⟩
    exact ⟨(p, x), List.mem_filter.mpr hp, rfl⟩

theorem count_targets (h : b.registry.Consistent) (hrunning : b.shuttingDown = false) :
    (b.targets E t key).count x =
      (if b.subscriptions.lookup x = some ⟨t, none⟩ then 1 else 0) +
        (if x ∈ b.chosen E t key then 1 else 0) + if x ∈ b.wildcardTargets t then 1 else 0 := by
  have hplaced : (b.members t none).count x =
      if b.subscriptions.lookup x = some ⟨t, none⟩ then 1 else 0 := h.placed x t none
  rw [targets, hrunning, if_neg Bool.false_ne_true, snapshot_eq, List.count_append,
    List.count_append, hplaced, (chosen_nodup h).count, (wildcardTargets_nodup h).count]

/-- A subscription that is gone is no target. -/
theorem count_gone (h : b.registry.Consistent) (hrunning : b.shuttingDown = false)
    (hgone : b.subscriptions.lookup x = none) : (b.targets E t key).count x = 0 := by
  have hchosen : x ∉ b.chosen E t key := by
    intro hx
    obtain ⟨g, hg⟩ := group_of_mem_chosen h hx
    rw [hgone] at hg
    cases hg
  have hwildcard : x ∉ b.wildcardTargets t := by
    intro hx
    obtain ⟨p, hp, -⟩ := (mem_wildcardTargets h).mp hx
    have hlive : (b.subscriptions.lookup x).isSome = true := h.wildcards_live (p, x) hp
    rw [hgone] at hlive
    cases hlive
  rw [count_targets h hrunning, hgone, if_neg nofun, if_neg hchosen, if_neg hwildcard]

end Broker

/-! ## What each subscription gets -/

namespace Interest

def group : Interest → Option String
  | .exact _ group => group
  | .pattern _ => none

/-- Does a subscription that is not in a group want the messages of a topic? -/
def wants (i : Interest) (t : String) : Bool :=
  match i with
  | .exact topic _ => topic = t
  | .pattern p => p.matches t

/-- The topic name that reaches a wildcard subscription a second time. -/
def doubles (i : Interest) (t : String) : Bool := i.wildcard.any (·.raw = t)

end Interest

namespace System

/-- Subscription `x` is live and was made for `i`. -/
def Live (s : System) (x : Nat) (i : Interest) : Prop :=
  x ∈ s.broker.subscriptions ∧ (s.registrations.lookup x).map Registration.interest = some i

variable {E : Externals} {s : System} {t : String} {key : Option Bytes} {x : Nat} {i : Interest}

theorem Live.record (h : s.Live x i) : ∃ home reg, s.broker.subscriptions.lookup x = some home ∧
    s.registrations.lookup x = some reg ∧ reg.interest = i := by
  obtain ⟨home, hhome⟩ := Option.isSome_iff_exists.mp (AList.lookup_isSome.mpr h.1)
  obtain ⟨reg, hreg, hi⟩ := Option.map_eq_some_iff.mp h.2
  exact ⟨home, reg, hhome, hreg, hi⟩

theorem Sound.home_of_live (h : s.Sound) (hlive : s.Live x i) :
    s.broker.subscriptions.lookup x = some i.home := by
  obtain ⟨home, reg, hhome, hreg, rfl⟩ := hlive.record
  obtain ⟨reg', hreg', rfl⟩ := h.registered x home hhome
  rw [hreg] at hreg'
  cases hreg'
  exact hhome

theorem Sound.wildcard_of_live (h : s.Sound) (hlive : s.Live x i) (p : SubjectPattern) :
    (p, x) ∈ s.broker.wildcardSubs ↔ i.wildcard = some p := by
  obtain ⟨home, reg, hhome, hreg, rfl⟩ := hlive.record
  exact h.wildcards x reg p hreg (by rw [hhome]; rfl)

theorem Sound.parsed_of_live (h : s.Sound) {p : SubjectPattern} (hlive : s.Live x (.pattern p)) :
    SubjectPattern.parse p.raw = .ok p := by
  obtain ⟨home, reg, hhome, hreg, hi⟩ := hlive.record
  exact h.parsed x reg p hreg hi

/-- The members of a group are the live subscriptions made for it. -/
theorem Sound.live_group (h : s.Sound) (t g : String) :
    s.Live x (.exact t (some g)) ↔ x ∈ s.broker.members t (some g) := by
  refine Iff.trans ?_ (h.consistent.mem_members (t := t) (g := some g)).symm
  constructor
  · exact h.home_of_live
  · intro hhome
    change s.broker.subscriptions.lookup x = _ at hhome
    obtain ⟨reg, hreg, heq⟩ := h.registered x _ hhome
    refine ⟨AList.lookup_isSome.mp (by rw [hhome]; rfl), ?_⟩
    rw [hreg]
    cases hi : reg.interest with
    | exact t' g' =>
      rw [hi] at heq
      cases heq
      simp [hi]
    | pattern p =>
      rw [hi] at heq
      cases heq

/-- Only a wildcard subscription is found through its pattern. -/
theorem Sound.mem_wildcardTargets (h : s.Sound) (hlive : s.Live x i) :
    x ∈ s.broker.wildcardTargets t ↔ ∃ p, i.wildcard = some p ∧ p.matches t = true := by
  rw [Broker.mem_wildcardTargets h.consistent]
  simp only [h.wildcard_of_live hlive]

/-- A subscription the topic name reaches twice is not in a group and wants it. -/
theorem Sound.wants_of_doubles (h : s.Sound) (hlive : s.Live x i)
    (hdoubles : i.doubles t = true) : i.group = none ∧ i.wants t = true := by
  cases i with
  | exact topic group => cases hdoubles
  | pattern p =>
    refine ⟨rfl, ?_⟩
    have hmatches := SubjectPattern.matches_raw (h.parsed_of_live hlive)
    by_cases hexact : p.isExact = true
    · simp [Interest.doubles, Interest.wildcard, hexact] at hdoubles
    · have hraw : p.raw = t := by
        simpa [Interest.doubles, Interest.wildcard, hexact] using hdoubles
      rw [← hraw]
      exact hmatches

/-- A subscription that is not in a group is offered what it wants, once more if
the topic is named like its pattern. -/
theorem Sound.count_broadcast (h : s.Sound) (hrunning : s.broker.shuttingDown = false)
    (hlive : s.Live x i) (hgroup : i.group = none) :
    (s.broker.targets E t key).count x =
      (if i.wants t then 1 else 0) + if i.doubles t then 1 else 0 := by
  have hhome := h.home_of_live hlive
  have hchosen : x ∉ s.broker.chosen E t key := by
    intro hx
    obtain ⟨g, hg⟩ := Broker.group_of_mem_chosen h.consistent hx
    rw [hhome] at hg
    have hnone : i.home.group = none := by
      rw [← hgroup]
      cases i <;> rfl
    rw [Option.some.inj hg] at hnone
    cases hnone
  rw [Broker.count_targets h.consistent hrunning, if_neg hchosen, hhome, Nat.add_zero]
  cases i with
  | exact topic group =>
    cases hgroup
    simp [h.mem_wildcardTargets hlive, Interest.home, Interest.wants, Interest.doubles,
      Interest.wildcard]
  | pattern p =>
    have hparse := h.parsed_of_live hlive
    by_cases hexact : p.isExact = true
    · have hmatches : p.matches t = decide (p.raw = t) := by
        rw [Bool.eq_iff_iff, SubjectPattern.matches_iff_of_isExact hparse hexact, decide_eq_true_eq,
          eq_comm]
      simp [h.mem_wildcardTargets hlive, Interest.home, Interest.wants, Interest.doubles,
        Interest.wildcard, hexact, SubjectPattern.exactSubject_eq_raw hparse hexact, hmatches]
    · by_cases hm : p.matches t = true <;>
        simp [h.mem_wildcardTargets hlive, Interest.home, Interest.wants, Interest.doubles,
          Interest.wildcard, hexact, hm, Nat.add_comm]

variable {g : String}

/-- A member of a group is offered the message if it is chosen. -/
theorem Sound.count_grouped (h : s.Sound) (hrunning : s.broker.shuttingDown = false) {t' : String}
    (hlive : s.Live x (.exact t' (some g))) :
    (s.broker.targets E t key).count x = if x ∈ s.broker.chosen E t key then 1 else 0 := by
  rw [Broker.count_targets h.consistent hrunning, h.home_of_live hlive]
  simp [h.mem_wildcardTargets hlive, Interest.home, Interest.wildcard]

/-- Exactly one live member of a group on the topic is chosen. -/
theorem Sound.exists_chosen (h : s.Sound) (E : Externals) (key : Option Bytes)
    (hx : s.Live x (.exact t (some g))) : ∃ y, s.Live y (.exact t (some g)) ∧
      ∀ z, s.Live z (.exact t (some g)) → (z ∈ s.broker.chosen E t key ↔ z = y) := by
  have hmembers : s.broker.members t (some g) ≠ [] :=
    List.ne_nil_of_mem ((h.live_group t g).mp hx)
  obtain ⟨y, hy, hchosen⟩ := Broker.exists_chosen E key h.consistent hmembers
  exact ⟨y, (h.live_group t g).mpr hy, fun z hz => hchosen z ((h.live_group t g).mp hz)⟩

/-- A member of a group on another topic is not. -/
theorem Sound.not_chosen (h : s.Sound) {t' : String} (hlive : s.Live x (.exact t' (some g)))
    (hne : t' ≠ t) : x ∉ s.broker.chosen E t key := by
  intro hx
  obtain ⟨g', hg'⟩ := Broker.group_of_mem_chosen h.consistent hx
  rw [h.home_of_live hlive] at hg'
  cases hg'
  exact hne rfl

end System

/-! ## Every live subscription has its subscriber -/

namespace Broker

/-- Every registered subscription has a subscriber. -/
def Present (b : Broker) : Prop :=
  ∀ x, (b.subscriptions.lookup x).isSome → (b.ledger? x).isSome

section Present

variable {E : Externals} {b b' : Broker}

theorem Present.keep (h : b.Present)
    (hsubs : ∀ x subRef, b'.subscriptions.lookup x = some subRef →
      b.subscriptions.lookup x = some subRef)
    (hledger : ∀ x, (b.ledger? x).isSome → (b'.ledger? x).isSome) : b'.Present := by
  intro x hx
  obtain ⟨subRef, hsub⟩ := Option.isSome_iff_exists.mp hx
  refine hledger x (h x ?_)
  rw [hsubs x subRef hsub]
  rfl

theorem Present.foldl {α : Type*} {f : Broker → α → Broker} {as : List α}
    (hf : ∀ b a, b.Present → (f b a).Present) (h : b.Present) : (as.foldl f b).Present := by
  induction as generalizing b with
  | nil => exact h
  | cons a as ih => exact ih (hf b a h)

theorem Subscribes.present {l : Ledger} (hs : Subscribes b b' l) (h : b.Present) :
    b'.Present := by
  intro x hx
  rw [hs.ledger]
  rw [hs.subscriptions] at hx
  split
  · rfl
  · rename_i hne
    rw [if_neg hne] at hx
    exact h x hx

theorem Publishes.present {o : Offer} {ids : List Nat} (hp : Publishes b b' o ids)
    (h : b.Present) : b'.Present :=
  h.keep hp.subscriptions fun x hx => by rwa [hp.ledger, Option.isSome_map]

theorem Quiet.present (hq : Quiet b b') (h : b.Present) : b'.Present :=
  h.keep hq.subscriptions fun x hx => by rwa [hq.ledger]

theorem Acks.present {x tag : Nat} {a : WalAckRecord} (ha : Acks b b' x tag a) (h : b.Present) :
    b'.Present :=
  h.keep (fun _ _ hx => ha.subscriptions ▸ hx) fun x hx => by rwa [ha.ledger, Option.isSome_map]

theorem Served.present {now : Nat} {ttl : Option Nat} {os : Nat → List Offer}
    (hs : Served now ttl b b' os) (h : b.Present) : b'.Present :=
  h.keep (fun _ _ hx => hs.subscriptions ▸ hx) fun x hx => by rwa [hs.ledger, Option.isSome_map]

/-- Serving a subscriber takes nobody away. -/
theorem Present.insert (h : b.Present) (x : Nat) (sub : Subscriber) :
    Present { b with subscribers := b.subscribers.insert x sub } := by
  refine h.keep (fun _ _ hy => hy) fun y hl => ?_
  rw [ledger?_insert rfl rfl]
  split
  · rfl
  · exact hl

theorem Present.maintenanceTick (h : b.Present) (now clock : Nat) :
    (b.maintenanceTick E now clock).Present :=
  maintenanceTick_invariant h now clock (fun _ _ _ hb _ => hb.insert _ _)
    fun _ _ hb => (publishInner_publishes ..).present hb

theorem Present.ack (h : b.Present) (x tag : Nat) :
    (((b.ack x tag).map Prod.fst).getD b).Present := by
  cases hack : b.ack x tag with
  | none => exact h
  | some out =>
    obtain ⟨b', entry⟩ := out
    cases entry with
    | none => exact (ack_quiet hack).present h
    | some a => exact (ack_spec hack).present h

theorem Present.replayTo (h : b.Present) (now : Nat) (topic : String) (x : Nat)
    (r : Wal.WalRecord) : (replayTo E now topic x b r).Present := by
  unfold Broker.replayTo
  split
  · split
    · exact (deliver_served ..).present h
    · exact h
  · exact h

theorem Present.act (h : b.Present) (a : BrokerAction) : (b.act E a).Present := by
  cases a with
  | subscribe clientId topic qos connId mode group =>
    exact (subscribeInnerGrouped_spec ..).present h
  | subscribePattern clientId pattern qos connId mode =>
    simp only [Broker.act]
    split
    · exact h
    · obtain ⟨topic, hs⟩ := subscribePatternInner_spec b clientId ‹_› qos connId mode
      exact hs.present h
  | unsubscribeConnection connId => exact (unsubscribeConnection_forgets b connId).quiet.present h
  | publish now pre o ttl key => exact (publishInner_publishes ..).present h
  | poll now subId => exact (poll_quiet ..).present h
  | ack subId tag => exact h.ack subId tag
  | maintenanceTick now clock => exact h.maintenanceTick now clock
  | replayFromWal now log checkpoint =>
    obtain ⟨b₁, hserved, heq⟩ := replay_served E now log b checkpoint
    simp only [Broker.act, heq]
    exact hserved.present h
  | replayToSubscriber now log subId fromOffset =>
    simp only [Broker.act, replayToSubscriber]
    split
    · exact h
    · exact h.foldl fun b r hb => hb.replayTo now _ subId r
  | buffers slots channels => exact h
  | beginShutdown => exact h

end Present

end Broker

namespace System

theorem present_run (E : Externals) (config : BrokerConfig) (hasWal : Bool)
    (acts : List BrokerAction) : ((System.new config hasWal).run E acts).broker.Present := by
  have hnew : (System.new config hasWal).broker.Present := fun _ hx => nomatch hx
  rw [broker_run]
  exact hnew.foldl fun b a hb => hb.act a

end System

/-! ## What a publish offers -/

/-- From `b` to `b'` subscription `x` is offered `o` as often as `n` says. -/
def Broker.Offered (b b' : Broker) (o : Offer) (x n : Nat) : Prop :=
  ∃ l, b.ledger? x = some l ∧ b'.ledger? x = some (l.offer (List.replicate n o))

variable {o : Offer}

theorem Broker.Offered.unique {b b' : Broker} {x n m : Nat} (hn : b.Offered b' o x n)
    (hm : b.Offered b' o x m) : n = m := by
  obtain ⟨l, hl, hoffer⟩ := hn
  obtain ⟨l', hl', hoffer'⟩ := hm
  rw [hl] at hl'
  cases hl'
  rw [hoffer] at hoffer'
  have hsame : l.offered ++ List.replicate n o = l.offered ++ List.replicate m o :=
    congrArg Ledger.offered (Option.some.inj hoffer')
  simpa using congrArg List.length (List.append_cancel_left hsame)

/-- A live subscription is offered the message as often as it is a target. -/
theorem System.Live.offered {E : Externals} {s : System} {now : Nat} {ttl : Option Nat}
    {key : Option Bytes} {x : Nat} {i : Interest} (hlive : s.Live x i)
    (hpresent : s.broker.Present) :
    s.broker.Offered (s.broker.publishInner E now none o ttl key) o x
      ((s.broker.targets E o.topic key).count x) := by
  obtain ⟨l, hl⟩ := Option.isSome_iff_exists.mp (hpresent x (AList.lookup_isSome.mpr hlive.1))
  refine ⟨l, hl, ?_⟩
  rw [(Broker.publishInner_spec ..).ledger, hl]
  rfl

/-! ## What a replay offers -/

/-- The offer replay makes of a message record. -/
def replayedOffer (r : Wal.WalRecord) (m : WalMessageRecord) : Offer :=
  ⟨some r.id, m.topic, m.payload, m.qos⟩

/-- Replay offers a record to the broadcast subscribers of its topic that have not
acked this far. -/
theorem Broker.mem_replayOffers_iff {b : Broker} (h : b.registry.Consistent)
    {cursors : MaxMap (String × String)} {x : Nat} {r : Wal.WalRecord} {l : Ledger}
    (hl : b.ledger? x = some l) : o ∈ b.replayOffers cursors x r ↔
      ∃ m, message? r = some m ∧ o = replayedOffer r m ∧
        b.subscriptions.lookup x = some ⟨m.topic, none⟩ ∧
        cursors.get (l.clientId, m.topic) < r.id := by
  unfold replayOffers
  cases hm : message? r with
  | none => simp
  | some m =>
    have hplace : b.broadcasts m.topic x ≠ 0 ↔ b.subscriptions.lookup x = some ⟨m.topic, none⟩ := by
      refine Iff.trans ?_ h.mem_members
      show b.broadcasts m.topic x ≠ 0 ↔ x ∈ b.members m.topic none
      unfold broadcasts members
      cases b.topics.lookup m.topic with
      | none => simp
      | some topic => exact Nat.pos_iff_ne_zero.symm.trans List.count_pos_iff
    simp only [beyondCursor_eq, hl, Option.any_some, decide_eq_true_eq, Option.some.injEq]
    split
    · rename_i hlt
      rw [List.mem_replicate, hplace]
      constructor
      · rintro ⟨hhome, rfl⟩
        exact ⟨m, rfl, rfl, hhome, hlt⟩
      · rintro ⟨_, rfl, rfl, hhome, -⟩
        exact ⟨hhome, rfl⟩
    · rename_i hle
      refine ⟨fun ho => absurd ho List.not_mem_nil, ?_⟩
      rintro ⟨_, rfl, -, -, hlt⟩
      exact absurd hlt hle

end BlipMQ.Core
