import BlipMQ.Core.System

/-!
# Broker — the registries agree

A subscription is recorded in several structures: the map of subscriptions,
the topic or group it belongs to, the list of wildcard subscriptions, and
the list of its connection. A registry is what the broker's structures say
together; the calls add one subscription to it or forget some.
-/

namespace BlipMQ.Core

/-! ## Registries -/

/-- `members t g` are the broadcast subscribers of topic `t`, or the members of
one of its groups. -/
@[ext] structure Registry where
  members : String → Option String → List Nat
  subscriptions : Nat → Option SubscriptionRef
  connections : Nat → List Nat
  wildcards : List (SubjectPattern × Nat)
  wildcardsLen : Nat
  nextId : Nat

namespace Registry

/-- One more subscription under the next id. -/
def add (r : Registry) (home : SubscriptionRef) (connId : Option Nat)
    (wildcard : Option SubjectPattern) : Registry where
  members t g := if ⟨t, g⟩ = home then r.members t g ++ [r.nextId] else r.members t g
  subscriptions x := if x = r.nextId then some home else r.subscriptions x
  connections c := if connId = some c then r.connections c ++ [r.nextId] else r.connections c
  wildcards := r.wildcards ++ wildcard.toList.map (·, r.nextId)
  wildcardsLen := r.wildcardsLen + wildcard.toList.length
  nextId := r.nextId + 1

/-- No structure mentions these ids any more. -/
def forget (r : Registry) (ids : List Nat) : Registry where
  members t g := (r.members t g).filter (· ∉ ids)
  subscriptions x := if x ∈ ids then none else r.subscriptions x
  connections c := (r.connections c).filter (· ∉ ids)
  wildcards := r.wildcards.filter (·.2 ∉ ids)
  wildcardsLen := (r.wildcards.filter (·.2 ∉ ids)).length
  nextId := r.nextId

/-- The subscriptions that have a record, with it. -/
def recorded (r : Registry) (ids : List Nat) : List (Nat × SubscriptionRef) :=
  ids.filterMap fun x => (r.subscriptions x).map (x, ·)

/-- The structures agree: a subscription is in the place its record names and
nowhere else, and the other lists name live subscriptions, none twice. -/
structure Consistent (r : Registry) : Prop where
  placed : ∀ x t g, (r.members t g).count x = if r.subscriptions x = some ⟨t, g⟩ then 1 else 0
  fresh : ∀ x, (r.subscriptions x).isSome → x < r.nextId
  connections_nodup : ∀ c, (r.connections c).Nodup
  connections_live : ∀ c, ∀ x ∈ r.connections c, (r.subscriptions x).isSome
  connections_disjoint : ∀ c c' x, x ∈ r.connections c → x ∈ r.connections c' → c = c'
  wildcards_nodup : (r.wildcards.map Prod.snd).Nodup
  wildcards_live : ∀ p ∈ r.wildcards, (r.subscriptions p.2).isSome
  wildcardsLen : r.wildcardsLen = r.wildcards.length

section Consistent

variable {r : Registry} {ids : List Nat} {x : Nat} {t : String} {g : Option String}

theorem Consistent.mem_members (h : r.Consistent) :
    x ∈ r.members t g ↔ r.subscriptions x = some ⟨t, g⟩ := by
  rw [← List.count_pos_iff, h.placed]
  split <;> simp_all

theorem Consistent.members_nodup (h : r.Consistent) (t : String) (g : Option String) :
    (r.members t g).Nodup := by
  refine List.nodup_iff_count_le_one.mpr fun x => ?_
  rw [h.placed]
  split <;> omega

theorem Consistent.lt_nextId (h : r.Consistent) {home : SubscriptionRef}
    (hx : r.subscriptions x = some home) : x < r.nextId :=
  h.fresh x (by rw [hx]; rfl)

theorem Consistent.nextId_dead (h : r.Consistent) : r.subscriptions r.nextId = none := by
  cases hx : r.subscriptions r.nextId with
  | none => rfl
  | some home => exact absurd (h.lt_nextId hx) (Nat.lt_irrefl _)

/-- Forgetting what is not there changes nothing. -/
theorem Consistent.forget_dead (h : r.Consistent)
    (hdead : ∀ x ∈ ids, r.subscriptions x = none) : r.forget ids = r := by
  have hkeep : ∀ {x : Nat}, (r.subscriptions x).isSome → x ∉ ids := by
    intro x hlive hx
    rw [hdead x hx] at hlive
    cases hlive
  have hwildcards : r.wildcards.filter (·.2 ∉ ids) = r.wildcards :=
    List.filter_eq_self.mpr fun p hp => decide_eq_true (hkeep (h.wildcards_live p hp))
  refine Registry.ext ?_ ?_ ?_ hwildcards ?_ rfl
  · funext t g
    refine List.filter_eq_self.mpr fun x hx => decide_eq_true (hkeep ?_)
    rw [h.mem_members.mp hx]
    rfl
  · funext x
    show (if x ∈ ids then none else r.subscriptions x) = r.subscriptions x
    by_cases hx : x ∈ ids
    · rw [if_pos hx, hdead x hx]
    · rw [if_neg hx]
  · funext c
    exact List.filter_eq_self.mpr fun x hx => decide_eq_true (hkeep (h.connections_live c x hx))
  · show (r.wildcards.filter (·.2 ∉ ids)).length = r.wildcardsLen
    rw [hwildcards, h.wildcardsLen]

theorem Consistent.forget (h : r.Consistent) (ids : List Nat) : (r.forget ids).Consistent := by
  have hlive : ∀ x, x ∉ ids → (r.subscriptions x).isSome →
      ((r.forget ids).subscriptions x).isSome := by
    intro x hx hs
    show (if x ∈ ids then none else r.subscriptions x).isSome
    rwa [if_neg hx]
  refine
    { placed := ?_, fresh := ?_, connections_nodup := fun c => (h.connections_nodup c).filter _
      connections_live := ?_, connections_disjoint := ?_
      wildcards_nodup := h.wildcards_nodup.sublist (List.filter_sublist.map _)
      wildcards_live := ?_, wildcardsLen := rfl }
  · intro x t g
    show ((r.members t g).filter _).count x =
      if (if x ∈ ids then none else r.subscriptions x) = some ⟨t, g⟩ then 1 else 0
    by_cases hx : x ∈ ids
    · rw [List.count_eq_zero_of_not_mem (by simp [hx]), if_pos hx, if_neg nofun]
    · rw [List.count_filter (by simpa using hx), h.placed, if_neg hx]
  · intro x hx
    refine h.fresh x ?_
    change (if x ∈ ids then none else r.subscriptions x).isSome at hx
    split at hx
    · cases hx
    · exact hx
  · intro c x hx
    obtain ⟨hx, hnot⟩ := List.mem_filter.mp hx
    exact hlive x (of_decide_eq_true hnot) (h.connections_live c x hx)
  · intro c c' x hx hx'
    exact h.connections_disjoint c c' x (List.mem_of_mem_filter hx) (List.mem_of_mem_filter hx')
  · intro p hp
    obtain ⟨hp, hnot⟩ := List.mem_filter.mp hp
    exact hlive p.2 (of_decide_eq_true hnot) (h.wildcards_live p hp)

theorem recorded_cons_some {home : SubscriptionRef} (hx : r.subscriptions x = some home)
    (ids : List Nat) : r.recorded (x :: ids) = (x, home) :: r.recorded ids :=
  List.filterMap_cons_some (by rw [hx]; rfl)

theorem mem_recorded {home : SubscriptionRef} :
    (x, home) ∈ r.recorded ids ↔ x ∈ ids ∧ r.subscriptions x = some home := by
  rw [recorded, List.mem_filterMap]
  constructor
  · rintro ⟨y, hy, heq⟩
    obtain ⟨home', hl, heq⟩ := Option.map_eq_some_iff.mp heq
    cases heq
    exact ⟨hy, hl⟩
  · rintro ⟨hx, hl⟩
    exact ⟨x, hx, by rw [hl]; rfl⟩

/-- Taken from the places that the records name, subscriptions are in no place. -/
theorem Consistent.filter_recorded (h : r.Consistent) (ids : List Nat) (t : String)
    (g : Option String) : (r.members t g).filter (fun x => (x, ⟨t, g⟩) ∉ r.recorded ids) =
      (r.members t g).filter (· ∉ ids) := by
  refine List.filter_congr fun x hx => ?_
  have hiff : (x, ⟨t, g⟩) ∈ r.recorded ids ↔ x ∈ ids := by
    rw [mem_recorded]
    exact and_iff_left (h.mem_members.mp hx)
  simp [hiff]

/-- **What the end of a connection forgets**: the subscriptions on its list, each taken
from the place its record names. -/
theorem Consistent.forget_connection (h : r.Consistent) (c : Nat) :
    let removed := r.recorded (r.connections c)
    r.forget (r.connections c) =
      { members := fun t g => (r.members t g).filter fun x => (x, ⟨t, g⟩) ∉ removed
        subscriptions := fun x => if x ∈ r.connections c then none else r.subscriptions x
        connections := fun d => if d = c then [] else r.connections d
        wildcards := if removed = [] then r.wildcards
          else r.wildcards.filter (·.2 ∉ removed.map Prod.fst)
        wildcardsLen := if removed = [] then r.wildcardsLen
          else (r.wildcards.filter (·.2 ∉ removed.map Prod.fst)).length
        nextId := r.nextId } := by
  intro removed
  have hfst : ∀ x, x ∈ removed.map Prod.fst ↔ x ∈ r.connections c := by
    intro x
    constructor
    · intro hx
      obtain ⟨⟨y, home⟩, hp, rfl⟩ := List.mem_map.mp hx
      exact (mem_recorded.mp hp).1
    · intro hx
      obtain ⟨home, hl⟩ := Option.isSome_iff_exists.mp (h.connections_live c x hx)
      exact List.mem_map.mpr ⟨(x, home), mem_recorded.mpr ⟨hx, hl⟩, rfl⟩
  have hwildcards : (if removed = [] then r.wildcards
      else r.wildcards.filter (·.2 ∉ removed.map Prod.fst)) =
        r.wildcards.filter (·.2 ∉ r.connections c) := by
    simp only [hfst]
    split
    · rename_i hnil
      refine (List.filter_eq_self.mpr fun p _ => ?_).symm
      simpa [hnil] using hfst p.2
    · rfl
  refine Registry.ext (funext₂ fun t g => (h.filter_recorded _ t g).symm) rfl ?_
    hwildcards.symm ?_ rfl
  -- no other list had any of it
  · funext d
    show (r.connections d).filter _ = if d = c then [] else r.connections d
    split
    · rename_i hd
      subst hd
      exact List.filter_eq_nil_iff.mpr fun x hx => by simpa using hx
    · rename_i hd
      refine List.filter_eq_self.mpr fun x hx => ?_
      simpa using fun hx' => hd (h.connections_disjoint d c x hx hx')
  · show (r.wildcards.filter _).length = _
    rw [← hwildcards]
    split
    · exact h.wildcardsLen.symm
    · rfl

/-! ### Adding a subscription -/

variable (home : SubscriptionRef) (connId : Option Nat) (wildcard : Option SubjectPattern)

theorem subscriptions_add (r : Registry) (x : Nat) :
    (r.add home connId wildcard).subscriptions x =
      if x = r.nextId then some home else r.subscriptions x := rfl

theorem isSome_subscriptions_add_self (r : Registry) :
    ((r.add home connId wildcard).subscriptions r.nextId).isSome := by
  rw [subscriptions_add, if_pos rfl]
  rfl

/-- A live subscription stays, and the new one is another. -/
theorem Consistent.live_add (h : r.Consistent) (hx : (r.subscriptions x).isSome) :
    x ≠ r.nextId ∧ ((r.add home connId wildcard).subscriptions x).isSome := by
  have hne : x ≠ r.nextId := Nat.ne_of_lt (h.fresh x hx)
  exact ⟨hne, by rwa [subscriptions_add, if_neg hne]⟩

theorem mem_connections_add {c : Nat} : x ∈ (r.add home connId wildcard).connections c ↔
    x ∈ r.connections c ∨ (connId = some c ∧ x = r.nextId) := by
  show x ∈ (if connId = some c then _ else _) ↔ _
  split <;> simp_all

theorem mem_wildcards_add {p : SubjectPattern × Nat} :
    p ∈ (r.add home connId wildcard).wildcards ↔
      p ∈ r.wildcards ∨ p.2 = r.nextId ∧ wildcard = some p.1 := by
  show p ∈ r.wildcards ++ wildcard.toList.map (·, r.nextId) ↔ _
  cases wildcard with
  | none => simp
  | some w =>
    obtain ⟨q, y⟩ := p
    simp only [Option.toList_some, List.map_cons, List.map_nil, List.mem_append,
      List.mem_singleton, Prod.mk.injEq, Option.some.injEq]
    exact or_congr_right ⟨fun hp => ⟨hp.2, hp.1.symm⟩, fun hp => ⟨hp.2.symm, hp.1⟩⟩

theorem Consistent.nextId_notMem_connections (h : r.Consistent) (c : Nat) :
    r.nextId ∉ r.connections c := by
  intro hmem
  exact Nat.lt_irrefl _ (h.fresh _ (h.connections_live c _ hmem))

theorem Consistent.placed_add (h : r.Consistent) (x : Nat) (t : String) (g : Option String) :
    ((r.add home connId wildcard).members t g).count x =
      if (r.add home connId wildcard).subscriptions x = some ⟨t, g⟩ then 1 else 0 := by
  have hplaced := h.placed x t g
  rw [subscriptions_add]
  show (if (⟨t, g⟩ : SubscriptionRef) = home then _ else _ : List Nat).count x = _
  by_cases hx : x = r.nextId
  · subst hx
    rw [h.nextId_dead, if_neg nofun] at hplaced
    rw [if_pos rfl]
    by_cases hhome : (⟨t, g⟩ : SubscriptionRef) = home
    · rw [if_pos hhome, List.count_append, hplaced, hhome]
      simp
    · rw [if_neg hhome, hplaced, if_neg fun heq => hhome (Option.some.inj heq).symm]
  · rw [if_neg hx]
    split
    · rw [List.count_append, hplaced, List.count_eq_zero_of_not_mem (by simpa using hx)]
      rfl
    · exact hplaced

theorem Consistent.wildcards_nodup_add (h : r.Consistent) :
    ((r.add home connId wildcard).wildcards.map Prod.snd).Nodup := by
  show ((r.wildcards ++ wildcard.toList.map (·, r.nextId)).map Prod.snd).Nodup
  cases wildcard with
  | none => simpa using h.wildcards_nodup
  | some w =>
    rw [List.map_append]
    refine List.nodup_append.mpr ⟨h.wildcards_nodup, List.nodup_singleton _, ?_⟩
    intro x hx y hy heq
    obtain ⟨p, hp, rfl⟩ := List.mem_map.mp hx
    have hy' : y = r.nextId := by simpa using hy
    exact Nat.ne_of_lt (h.fresh _ (h.wildcards_live p hp)) (heq.trans hy')

theorem Consistent.add (h : r.Consistent) (home : SubscriptionRef) (connId : Option Nat)
    (wildcard : Option SubjectPattern) : (r.add home connId wildcard).Consistent := by
  refine
    { placed := h.placed_add home connId wildcard, fresh := ?_, connections_nodup := ?_
      connections_live := ?_, connections_disjoint := ?_
      wildcards_nodup := h.wildcards_nodup_add home connId wildcard, wildcards_live := ?_
      wildcardsLen := ?_ }
  · intro x hx
    rw [subscriptions_add] at hx
    show x < r.nextId + 1
    by_cases heq : x = r.nextId
    · omega
    · rw [if_neg heq] at hx
      have := h.fresh x hx
      omega
  · intro c
    show (if connId = some c then _ else _ : List Nat).Nodup
    split
    · rw [← List.concat_eq_append]
      exact (h.connections_nodup c).concat (h.nextId_notMem_connections c)
    · exact h.connections_nodup c
  · intro c x hx
    rcases (mem_connections_add ..).mp hx with hold | ⟨-, rfl⟩
    · exact (h.live_add home connId wildcard (h.connections_live c x hold)).2
    · exact isSome_subscriptions_add_self ..
  · intro c c' x hx hx'
    rcases (mem_connections_add ..).mp hx with hold | ⟨hc, rfl⟩ <;>
      rcases (mem_connections_add ..).mp hx' with hold' | ⟨hc', heq⟩
    · exact h.connections_disjoint c c' x hold hold'
    · exact absurd (heq ▸ hold) (h.nextId_notMem_connections c)
    · exact absurd hold' (h.nextId_notMem_connections c')
    · exact Option.some.inj (hc.symm.trans hc')
  · intro p hp
    rcases (mem_wildcards_add ..).mp hp with hold | ⟨heq, -⟩
    · exact (h.live_add home connId wildcard (h.wildcards_live p hold)).2
    · rw [heq]
      exact isSome_subscriptions_add_self ..
  · show r.wildcardsLen + _ = (r.wildcards ++ _).length
    rw [List.length_append, List.length_map, h.wildcardsLen]

end Consistent

end Registry

/-! ## The registry of a broker -/

namespace Topic

/-- The broadcast subscribers, or the members of a group. -/
def members (topic : Topic) : Option String → List Nat
  | none => topic.subscribers
  | some g => ((topic.consumerGroups.lookup g).map ConsumerGroup.members).getD []

variable {topic : Topic} {x : Nat} {g g' : Option String}

theorem members_add :
    (topic.add x g).members g' =
      if g' = g then topic.members g' ++ [x] else topic.members g' := by
  cases g with
  | none => cases g' <;> simp [add, members]
  | some g =>
    cases g' with
    | none => simp [add, members]
    | some g' =>
      simp only [add, members, lookup_insert_eq, Option.some.injEq]
      by_cases h : g' = g
      · subst h
        rw [if_pos rfl, if_pos rfl]
        cases topic.consumerGroups.lookup g' <;> rfl
      · rw [if_neg h, if_neg h]

theorem members_remove :
    (topic.remove x g).members g' =
      if g' = g then (topic.members g').filter (· ≠ x) else topic.members g' := by
  cases g with
  | none => cases g' <;> simp [remove, members]
  | some g =>
    cases g' with
    | none => simp [remove, members]
    | some g' =>
      simp only [remove, members, lookup_modifyAt, Option.some.injEq]
      by_cases h : g' = g
      · subst h
        rw [if_pos rfl, if_pos rfl]
        cases topic.consumerGroups.lookup g' <;> rfl
      · rw [if_neg h, if_neg h]

theorem members_choose (ahash : Bytes → Nat) (key : Option Bytes) (cg : ConsumerGroup) :
    (cg.choose ahash key).2.members = cg.members := by
  unfold ConsumerGroup.choose
  split
  · rfl
  · split
    · rfl
    · split <;> rfl

theorem members_advance (ahash : Bytes → Nat) (key : Option Bytes) :
    (topic.advance ahash key).members g = topic.members g := by
  cases g with
  | none => rfl
  | some g =>
    simp only [members, advance, lookup_filterMapValues]
    cases topic.consumerGroups.lookup g with
    | none => rfl
    | some cg => exact members_choose ahash key cg

end Topic

namespace Broker

/-- The subscriptions in a place of a topic. -/
def members (b : Broker) (t : String) (g : Option String) : List Nat :=
  match b.topics.lookup t with
  | none => []
  | some topic => topic.members g

def registry (b : Broker) : Registry where
  members := b.members
  subscriptions := b.subscriptions.lookup
  connections c := (b.connectionSubs.lookup c).getD []
  wildcards := b.wildcardSubs
  wildcardsLen := b.wildcardSubsLen
  nextId := b.nextSubscriptionId

section Frame

variable {E : Externals} {b b' : Broker}

theorem members_modifyAt {t : String} {f : Topic → Topic} (name : String) (g : Option String)
    (h : b'.topics = modifyAt b.topics name f) :
    b'.members t g = if t = name then
      ((b.topics.lookup t).map fun topic => (f topic).members g).getD [] else b.members t g := by
  unfold members
  rw [h, lookup_modifyAt]
  by_cases ht : t = name
  · subst ht
    rw [if_pos rfl, if_pos rfl]
    cases b.topics.lookup t <;> rfl
  · rw [if_neg ht, if_neg ht]

/-- A change of a topic record that moves nobody. -/
theorem registry_modifyTopic (record : Option String) {f : Topic → Topic}
    (hf : ∀ topic g, (f topic).members g = topic.members g) :
    (b.modifyTopic record f).registry = b.registry := by
  cases record with
  | none => rfl
  | some name =>
    have hmembers : (b.modifyTopic (some name) f).members = b.members := by
      funext t g
      rw [members_modifyAt name g rfl]
      by_cases ht : t = name
      · subst ht
        rw [if_pos rfl, members]
        cases b.topics.lookup t with
        | none => rfl
        | some topic => exact hf topic g
      · rw [if_neg ht]
    exact Registry.ext hmembers rfl rfl rfl rfl rfl

theorem registry_startPublish (record : Option String) (walId : Option Nat)
    (key : Option Bytes) : (b.startPublish E record walId key).registry = b.registry := by
  unfold startPublish
  dsimp only
  rw [registry_modifyTopic]
  · rfl
  · intro topic g
    refine Eq.trans ?_ (Topic.members_advance E.ahash key)
    cases g <;> rfl

theorem registry_endPublish (record : Option String) (delivered dropped : Nat) :
    (b.endPublish record delivered dropped).registry = b.registry :=
  (registry_modifyTopic record fun _ g => by cases g <;> rfl).trans rfl

theorem Served.registry {now : Nat} {ttl : Option Nat} {os : Nat → List Offer}
    (h : Served now ttl b b' os) : b'.registry = b.registry := by
  obtain ⟨_, _, _, rfl⟩ := h.frame
  rfl

theorem registry_foldl {α : Type*} {f : Broker → α → Broker}
    (hf : ∀ b a, (f b a).registry = b.registry) (b : Broker) (as : List α) :
    (as.foldl f b).registry = b.registry := by
  induction as generalizing b with
  | nil => rfl
  | cons a as ih => exact (ih (f b a)).trans (hf b a)

end Frame

/-! ## Subscribing -/

theorem registry_subscribe (b : Broker) (clientId topic : String) (qos : QoSLevel)
    (connId : Option Nat) (mode : DeliveryMode) (group : Option String) :
    (b.subscribeInnerGrouped clientId topic qos connId mode group).1.registry =
      b.registry.add ⟨topic, group⟩ connId none := by
  refine Registry.ext ?_ ?_ ?_ (List.append_nil _).symm rfl rfl
  · funext t g
    show (match (b.topics.insert topic _).lookup t with | none => [] | some topic => _) =
      if (⟨t, g⟩ : SubscriptionRef) = ⟨topic, group⟩ then b.members t g ++ _ else b.members t g
    simp only [lookup_insert_eq, SubscriptionRef.mk.injEq]
    by_cases ht : t = topic
    · subst ht
      have hold : (b.topicOrNew t).members g = b.members t g := by
        unfold topicOrNew members
        cases b.topics.lookup t with
        | none => cases g <;> rfl
        | some topic => rfl
      simp only [if_true, Topic.members_add, true_and, hold]
      rfl
    · simp only [ht, false_and, if_false]
      rfl
  · funext x
    exact lookup_insert_eq ..
  · funext c
    cases connId with
    | none => rfl
    | some c' =>
      show ((b.connectionSubs.insert c' _).lookup c).getD [] = if some c' = some c then _ else _
      rw [lookup_insert_eq]
      by_cases hc : c = c'
      · subst hc
        rw [if_pos rfl, if_pos rfl]
        rfl
      · rw [if_neg hc, if_neg fun heq => hc (Option.some.inj heq).symm]
        rfl

end Broker

/-- Where a subscription is recorded. -/
def Interest.home : Interest → SubscriptionRef
  | .exact topic group => ⟨topic, group⟩
  | .pattern p => ⟨if p.isExact then p.exactSubject else p.raw, none⟩

/-- The pattern that every publish is matched against. -/
def Interest.wildcard : Interest → Option SubjectPattern
  | .exact _ _ => none
  | .pattern p => if p.isExact then none else some p

namespace Broker

theorem registry_subscribePattern {b : Broker} (h : b.registry.Consistent) (clientId : String)
    (p : SubjectPattern) (qos : QoSLevel) (connId : Option Nat) (mode : DeliveryMode) :
    (b.subscribePatternInner clientId p qos connId mode).1.registry =
      b.registry.add (Interest.pattern p).home connId (Interest.pattern p).wildcard := by
  unfold subscribePatternInner
  by_cases hexact : p.isExact = true
  · have hhome : (Interest.pattern p).home = ⟨p.exactSubject, none⟩ := by
      rw [Interest.home, if_pos hexact]
    have hwildcard : (Interest.pattern p).wildcard = none := if_pos hexact
    rw [if_pos hexact, hhome, hwildcard]
    exact registry_subscribe ..
  · have hhome : (Interest.pattern p).home = ⟨p.raw, none⟩ := by
      rw [Interest.home, if_neg hexact]
    have hwildcard : (Interest.pattern p).wildcard = some p := if_neg hexact
    have hadd := registry_subscribe b clientId p.raw qos connId mode none
    have hmembers := congrArg Registry.members hadd
    have hsubscriptions := congrArg Registry.subscriptions hadd
    have hconnections := congrArg Registry.connections hadd
    rw [if_neg hexact, hhome, hwildcard]
    refine Registry.ext hmembers hsubscriptions hconnections rfl ?_ rfl
    have hlen : b.wildcardSubsLen = b.wildcardSubs.length := h.wildcardsLen
    show (b.wildcardSubs ++ [_]).length = b.wildcardSubsLen + 1
    rw [List.length_append, hlen]
    rfl

/-! ## Unsubscribing -/

section Unsubscribe

variable {b : Broker} {x : Nat}

theorem members_removeFromTopic (x : Nat) (home : SubscriptionRef) (t : String)
    (g : Option String) :
    (b.removeFromTopic x home).members t g =
      if (⟨t, g⟩ : SubscriptionRef) = home then (b.members t g).filter (· ≠ x)
      else b.members t g := by
  obtain ⟨topic, group⟩ := home
  rw [members_modifyAt topic g rfl]
  simp only [SubscriptionRef.mk.injEq]
  by_cases ht : t = topic
  · subst ht
    simp only [if_true, true_and, Topic.members_remove, members]
    cases b.topics.lookup t with
    | none => simp
    | some topic => rfl
  · simp only [ht, if_false, false_and]

/-- One removal from the list of a place, and then the others. -/
theorem filter_unplace (l : List Nat) (place : SubscriptionRef) (p : Nat × SubscriptionRef)
    (removed : List (Nat × SubscriptionRef)) :
    (if place = p.2 then l.filter (· ≠ p.1) else l).filter (fun x => (x, place) ∉ removed) =
      l.filter fun x => (x, place) ∉ p :: removed := by
  obtain ⟨y, home⟩ := p
  by_cases hp : place = home
  · rw [if_pos hp, List.filter_filter]
    refine List.filter_congr fun x _ => ?_
    simp [hp, not_or, Bool.and_comm]
  · rw [if_neg hp]
    refine List.filter_congr fun x _ => ?_
    simp [hp]

theorem registry_unsubscribeOne (h : b.registry.Consistent) (x : Nat) :
    (b.unsubscribeOne x).registry = b.registry.forget [x] := by
  unfold unsubscribeOne
  cases hx : b.subscriptions.lookup x with
  | none =>
    refine (h.forget_dead fun y hy => ?_).symm
    rw [List.mem_singleton.mp hy]
    exact hx
  | some home =>
    refine Registry.ext ?_ ?_ ?_ rfl rfl rfl
    · funext t g
      have hplace := filter_unplace (b.members t g) ⟨t, g⟩ (x, home) []
      rw [List.filter_eq_self.mpr fun _ _ => by simp] at hplace
      refine ((members_removeFromTopic x home t g).trans hplace).trans ?_
      have hone : b.registry.recorded [x] = [(x, home)] := Registry.recorded_cons_some hx []
      rw [← hone]
      exact h.filter_recorded [x] t g
    · funext y
      show (b.subscriptions.erase x).lookup y = if y ∈ [x] then none else _
      rw [lookup_erase_eq]
      simp only [List.mem_singleton]
      rfl
    · funext c
      show ((filterMapValues b.connectionSubs _).lookup c).getD [] =
        ((b.connectionSubs.lookup c).getD []).filter _
      rw [lookup_filterMapValues]
      cases b.connectionSubs.lookup c with
      | none => rfl
      | some ids =>
        simp only [Option.bind_some, Option.getD_some, List.mem_singleton]
        split
        · rename_i hnil
          exact hnil.symm
        · rfl

theorem lookup_foldl_erase_eq (ids : List Nat) (subs : AList fun _ : Nat => SubscriptionRef) :
    (ids.foldl (fun subs x => subs.erase x) subs).lookup x =
      if x ∈ ids then none else subs.lookup x := by
  induction ids generalizing subs with
  | nil => simp
  | cons y ids ih =>
    rw [List.foldl_cons, ih, lookup_erase_eq]
    by_cases hxy : x = y <;> by_cases hx : x ∈ ids <;> simp [hxy, hx]

/-- The places after a number of removals. -/
theorem members_foldl_removeFromTopic (removed : List (Nat × SubscriptionRef)) (b : Broker)
    (t : String) (g : Option String) :
    (removed.foldl (fun b p => b.removeFromTopic p.1 p.2) b).members t g =
      (b.members t g).filter fun x => (x, ⟨t, g⟩) ∉ removed := by
  induction removed generalizing b with
  | nil => simp
  | cons p removed ih =>
    rw [List.foldl_cons, ih, members_removeFromTopic, filter_unplace]

theorem foldl_removeFromTopic_frame (removed : List (Nat × SubscriptionRef)) (b : Broker) :
    ∃ topics, removed.foldl (fun b p => b.removeFromTopic p.1 p.2) b =
      { b with topics := topics } := by
  induction removed generalizing b with
  | nil => exact ⟨b.topics, rfl⟩
  | cons p removed ih =>
    obtain ⟨topics, heq⟩ := ih (b.removeFromTopic p.1 p.2)
    exact ⟨topics, heq⟩

theorem registry_unsubscribeConnection (h : b.registry.Consistent) (c : Nat) :
    (b.unsubscribeConnection c).registry = b.registry.forget (b.registry.connections c) := by
  rw [h.forget_connection]
  have hconnections : ∀ d, ((b.connectionSubs.erase c).lookup d).getD [] =
      if d = c then [] else b.registry.connections d := by
    intro d
    rw [lookup_erase_eq]
    split <;> rfl
  obtain ⟨ids, hids⟩ : ∃ ids, b.registry.connections c = ids := ⟨_, rfl⟩
  have hids' : (b.connectionSubs.lookup c).getD [] = ids := hids
  obtain ⟨removed, hremoved⟩ : ∃ removed, b.registry.recorded ids = removed := ⟨_, rfl⟩
  have hremoved' : ids.filterMap (fun x => (b.subscriptions.lookup x).map (x, ·)) = removed :=
    hremoved
  obtain ⟨topics, hfold⟩ := foldl_removeFromTopic_frame removed { b with
    connectionSubs := b.connectionSubs.erase c
    subscriptions := ids.foldl (fun subs x => subs.erase x) b.subscriptions }
  have hplaces := members_foldl_removeFromTopic removed { b with
    connectionSubs := b.connectionSubs.erase c
    subscriptions := ids.foldl (fun subs x => subs.erase x) b.subscriptions }
  rw [hfold] at hplaces
  unfold unsubscribeConnection
  simp only [hids, hids', hremoved, hremoved', hfold]
  split <;> exact Registry.ext (funext₂ hplaces)
    (funext fun x => lookup_foldl_erase_eq ids b.subscriptions) (funext hconnections) rfl rfl rfl

end Unsubscribe

end Broker

end BlipMQ.Core
