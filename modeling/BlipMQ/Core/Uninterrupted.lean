import BlipMQ.Core.SideBySide
import BlipMQ.Core.Targets
import Mathlib.Logic.Relation

/-!
# Broker — calls that nothing interrupts

Where no other call comes between its critical sections, a call does to the
registries what the function of the broker does in one go, and a publish finds
the targets of its snapshot.
-/

namespace BlipMQ.Core

/-- What a call reaches from a shared state on its own. -/
def Call.Alone (ahash : Bytes → Nat) : Shared × Call → Shared × Call → Prop :=
  Relation.ReflTransGen fun q q' => q.2.next ahash q.1 = some q'

open Relation (ReflTransGen)

variable {ahash : Bytes → Nat} {s : Shared}

theorem Call.Alone.refl {q : Shared × Call} : Alone ahash q q := ReflTransGen.refl

theorem Call.Alone.head {s' : Shared} {c c' : Call} {q : Shared × Call}
    (h : c.next ahash s = some (s', c')) (hrest : Alone ahash (s', c') q) :
    Alone ahash (s, c) q :=
  ReflTransGen.head (b := (s', c')) h hrest

/-- These are runs of the system in which one call takes all the steps. -/
theorem Interleaved.run_alone {q q' : Shared × Call} (h : Call.Alone ahash q q') {i : Nat}
    {calls : List Call} (hi : calls[i]? = some q.2) :
    ∃ n, run (step ahash) ⟨q.1, calls⟩ (List.replicate n (.advance i)) =
      some ⟨q'.1, calls.set i q'.2⟩ := by
  induction h using ReflTransGen.head_induction_on generalizing calls with
  | refl =>
    obtain ⟨hlt, heq⟩ := List.getElem?_eq_some_iff.mp hi
    exact ⟨0, by rw [← heq, List.set_getElem_self]; rfl⟩
  | @head q r hstep _ ih =>
    have hlt := (List.getElem?_eq_some_iff.mp hi).1
    have hnext : (calls.set i r.2)[i]? = some r.2 := List.getElem?_set_self hlt
    obtain ⟨n, hn⟩ := ih hnext
    rw [List.set_set] at hn
    exact ⟨n + 1, run_cons.mpr ⟨_, by simp [step, hi, hstep], hn⟩⟩

/-! ## Entering and removing -/

/-- The sections that enter a subscription, one after the other. -/
theorem Registry.add_eq (r : Registry) (hlen : r.wildcardsLen = r.wildcards.length)
    (home : SubscriptionRef) (connId : Option Nat) (wildcard : Option SubjectPattern) :
    r.add home connId wildcard =
      let stored := ({ r with nextId := r.nextId + 1 }.place r.nextId home).store r.nextId home
      let connected := connId.elim stored (stored.connect r.nextId)
      wildcard.elim connected (connected.list r.nextId) := by
  cases connId <;> cases wildcard <;>
    simp [add, store, place, connect, list, hlen, eq_comm]

namespace Registry

/-- The records of these subscriptions are gone. -/
def discardAll (r : Registry) (ids : List Nat) : Registry :=
  { r with subscriptions := fun x => if x ∈ ids then none else r.subscriptions x }

/-- They are gone from these places. -/
def unplaceAll (r : Registry) (removed : List (Nat × SubscriptionRef)) : Registry :=
  { r with members := fun t g => (r.members t g).filter fun x => (x, ⟨t, g⟩) ∉ removed }

variable (r : Registry)

theorem discardAll_cons (x : Nat) (ids : List Nat) :
    r.discardAll (x :: ids) = (r.discard x).discardAll ids := by
  refine Registry.ext rfl (funext fun y => ?_) rfl rfl rfl rfl
  by_cases hy : y = x <;> by_cases hmem : y ∈ ids <;> simp [discardAll, discard, hy, hmem]

theorem discard_dead {x : Nat} (hx : r.subscriptions x = none) : r.discard x = r := by
  refine Registry.ext rfl (funext fun y => ?_) rfl rfl rfl rfl
  by_cases hy : y = x <;> simp [discard, hy, hx]

theorem recorded_discard {x : Nat} {ids : List Nat} (hx : x ∉ ids) :
    (r.discard x).recorded ids = r.recorded ids := by
  refine List.filterMap_congr fun y hy => ?_
  simp [discard, ne_of_mem_of_not_mem hy hx]

theorem unplaceAll_cons (p : Nat × SubscriptionRef) (removed : List (Nat × SubscriptionRef)) :
    r.unplaceAll (p :: removed) = (r.unplace p.1 p.2).unplaceAll removed :=
  Registry.ext (funext₂ fun _ _ => (Broker.filter_unplace ..).symm) rfl rfl rfl rfl rfl

end Registry

theorem alone_take {ids : List Nat} (hnd : ids.Nodup) (taken : List (Nat × SubscriptionRef))
    (one : Bool) : Call.Alone ahash (s, .take ids taken one)
      ({ s with registry := s.registry.discardAll ids },
        .unplace [] (taken ++ s.registry.recorded ids) one) := by
  induction ids generalizing s taken with
  | nil =>
    refine .head rfl ?_
    simp only [Registry.discardAll, Registry.recorded, List.not_mem_nil, if_false,
      List.filterMap_nil, List.append_nil]
    exact .refl
  | cons x ids ih =>
    obtain ⟨hnot, hnd⟩ := List.nodup_cons.mp hnd
    have hrest := @ih { s with registry := s.registry.discard x } hnd
    simp only [s.registry.recorded_discard hnot, ← s.registry.discardAll_cons] at hrest
    cases hx : s.registry.subscriptions x with
    | none =>
      rw [s.registry.discard_dead hx] at hrest
      have hnone : s.registry.recorded (x :: ids) = s.registry.recorded ids :=
        List.filterMap_cons_none (by rw [hx]; rfl)
      rw [hnone]
      exact .head (by simp [Call.next, hx]) (hrest taken)
    | some home =>
      have hlater := hrest (taken ++ [(x, home)])
      rw [List.append_assoc] at hlater
      rw [Registry.recorded_cons_some hx]
      exact .head (by simp [Call.next, hx]) hlater

theorem alone_unplace {todo : List (Nat × SubscriptionRef)}
    (hknown : ∀ p ∈ todo, s.knows p.2 = true) (gone : List Nat) (one : Bool) :
    Call.Alone ahash (s, .unplace gone todo one)
      ({ s with registry := s.registry.unplaceAll todo },
        .afterUnplace one (gone ++ todo.map Prod.fst)) := by
  induction todo generalizing s gone with
  | nil =>
    refine .head rfl ?_
    simp only [Registry.unplaceAll, List.not_mem_nil, not_false_eq_true, decide_true,
      List.filter_true, List.map_nil, List.append_nil]
    exact .refl
  | cons p todo ih =>
    obtain ⟨hp, hknown⟩ := List.forall_mem_cons.mp hknown
    have hrest := @ih { s with registry := s.registry.unplace p.1 p.2 } hknown (gone ++ [p.1])
    rw [List.append_assoc] at hrest
    rw [s.registry.unplaceAll_cons]
    exact .head (by simp [Call.next, hp]) hrest

/-! ## Reading -/

variable {t : String} {key : Option Bytes} {todo : List Read} {found : List (Source × Nat)}

variable (ahash s t key found todo) in
/-- Reads that lead to no others find what they would find before the first of them:
each group is asked once. -/
theorem alone_reads {rs : List Read} (hnd : rs.Nodup)
    (hleads : ∀ r ∈ rs, ∀ s, r.leads s t = []) :
    ∃ turns, Call.Alone ahash (s, .publish ⟨t, key, rs ++ todo, found⟩)
      ({ s with turns := turns },
        .publish ⟨t, key, todo, found ++ rs.flatMap (·.finds ahash s t key)⟩) := by
  induction rs generalizing s found with
  | nil =>
    rw [List.flatMap_nil, List.append_nil]
    exact ⟨s.turns, .refl⟩
  | cons r rs ih =>
    obtain ⟨hr, hnd⟩ := List.nodup_cons.mp hnd
    obtain ⟨hnone, hleads⟩ := List.forall_mem_cons.mp hleads
    obtain ⟨turns, hstep, hsame⟩ : ∃ turns,
        (Call.publish ⟨t, key, r :: rs ++ todo, found⟩).next ahash s =
          some ({ s with turns := turns },
            .publish ⟨t, key, r.leads s t ++ (rs ++ todo), found ++ r.finds ahash s t key⟩) ∧
        ∀ r' ∈ rs, r'.finds ahash { s with turns := turns } t key = r'.finds ahash s t key := by
      cases r with
      | members g =>
        refine ⟨_, by rfl, fun r' hr' => ?_⟩
        cases r' with
        | members g' =>
          have hne : g' ≠ g := fun heq => hr (heq ▸ hr')
          simp [Read.finds, Shared.group, hne]
        | _ => rfl
      | _ => exact ⟨s.turns, rfl, fun _ _ => rfl⟩
    rw [hnone] at hstep
    obtain ⟨turns', hrest⟩ := ih { s with turns := turns } (found ++ r.finds ahash s t key) hnd
      hleads
    rw [List.append_assoc, List.flatMap_congr hsame] at hrest
    exact ⟨turns', .head hstep hrest⟩

/-- A read that finds nothing leads to others. -/
theorem Call.Alone.silent {r : Read} {rs : List Read} {q : Shared × Call}
    (hne : ∀ g, r ≠ .members g) (hr : r.finds ahash s t key = []) (hleads : r.leads s t = rs)
    (hrest : Alone ahash (s, .publish ⟨t, key, rs ++ todo, found⟩) q) :
    Alone ahash (s, .publish ⟨t, key, r :: todo, found⟩) q := by
  have hstep : (Call.publish ⟨t, key, r :: todo, found⟩).next ahash s =
      some (s, .publish ⟨t, key, r.leads s t ++ todo, found ++ r.finds ahash s t key⟩) := by
    cases r with
    | members g => exact absurd rfl (hne g)
    | _ => rfl
  rw [hr, hleads, List.append_nil] at hstep
  exact .head hstep hrest

/-! ## The calls of the broker -/

namespace Broker

/-- What the calls share of the broker. -/
def shared (b : Broker) : Shared where
  registry := b.registry
  topics := b.topics.keys
  groups t := (b.topics.lookup t).elim [] (·.consumerGroups.keys)
  turns t g := (b.group? t g).elim 0 ConsumerGroup.nextIdx

variable {b : Broker}

theorem chosen_eq (E : Externals) (t : String) (key : Option Bytes) : b.chosen E t key =
    (b.shared.groups t).filterMap fun g => ((b.shared.group t g).choose E.ahash key).1 := by
  unfold chosen
  cases ht : b.topics.lookup t with
  | none => simp [shared, ht]
  | some topic =>
    have hkeys : b.shared.groups t = topic.consumerGroups.entries.map Sigma.fst := by
      simp only [shared, ht, Option.elim_some]
      rfl
    rw [hkeys, List.filterMap_map]
    refine List.filterMap_congr fun e he => ?_
    have hg : b.group? t e.1 = some e.2 := by
      rw [group?, ht]
      exact AList.mem_lookup_iff.mpr he
    have hgroup : b.shared.group t e.1 = e.2 := by
      show ConsumerGroup.mk (b.members t (some e.1)) ((b.group? t e.1).elim 0 _) = _
      rw [members_eq, hg]
      rfl
    rw [Function.comp_apply, hgroup]

variable (ahash) (hc : b.registry.Consistent)

include hc

/-- Each place that a record names has its topic and its group. -/
theorem knows_shared {x : Nat} {home : SubscriptionRef}
    (hx : b.subscriptions.lookup x = some home) : b.shared.knows home = true := by
  have hmem : x ∈ b.members home.topic home.group := hc.mem_members.mpr hx
  cases ht : b.topics.lookup home.topic with
  | none => simp [members, ht] at hmem
  | some topic =>
    refine b.shared.knows_iff.mpr ⟨AList.lookup_isSome.mp (by rw [ht]; rfl), fun g hg => ?_⟩
    rw [hg, members_eq, group?, ht, Option.bind_some] at hmem
    show g ∈ (b.topics.lookup home.topic).elim [] _
    rw [ht]
    refine AList.lookup_isSome.mp ?_
    cases hcg : topic.consumerGroups.lookup g with
    | none => simp [hcg] at hmem
    | some cg => rfl

theorem alone_add (j : Joining) :
    ∃ s, Call.Alone ahash (b.shared, (Request.subscribe j).call) (s, .done) ∧
      s.registry = b.registry.add j.home j.connId j.wildcard := by
  obtain ⟨⟨topic, group⟩, connId, wildcard⟩ := j
  rw [Registry.add_eq _ hc.wildcardsLen]
  obtain ⟨groups, hstored⟩ : ∃ groups, Call.Alone ahash
      (b.shared, (Request.subscribe ⟨⟨topic, group⟩, connId, wildcard⟩).call) ({ b.shared with
        topics := b.shared.topics.insert topic
        groups := groups
        registry := ({ b.registry with nextId := b.registry.nextId + 1 }.place b.registry.nextId
          ⟨topic, group⟩).store b.registry.nextId ⟨topic, group⟩ },
        .afterStore b.registry.nextId ⟨⟨topic, group⟩, connId, wildcard⟩) := by
    cases group with
    | none =>
      refine ⟨b.shared.groups, ?_⟩
      iterate 4 refine .head rfl ?_
      exact .refl
    | some g =>
      refine ⟨fun t => if t = topic then (b.shared.groups t).insert g else b.shared.groups t, ?_⟩
      iterate 5 refine .head rfl ?_
      exact .refl
  cases connId with
  | none =>
    cases wildcard with
    | none => exact ⟨_, hstored, by rfl⟩
    | some p => exact ⟨_, hstored.tail rfl, by rfl⟩
  | some c =>
    cases wildcard with
    | none => exact ⟨_, hstored.tail rfl, by rfl⟩
    | some p => exact ⟨_, (hstored.tail rfl).tail rfl, by rfl⟩

/-- **A subscribe that nothing interrupts is the broker's.** -/
theorem alone_subscribe (clientId topic : String) (qos : QoSLevel) (connId : Option Nat)
    (mode : DeliveryMode) (group : Option String) : ∃ s, Call.Alone ahash
      (b.shared, (Request.subscribe ⟨⟨topic, group⟩, connId, none⟩).call) (s, .done) ∧
      s.registry = (b.subscribeInnerGrouped clientId topic qos connId mode group).1.registry := by
  rw [registry_subscribe]
  exact alone_add ahash hc ⟨⟨topic, group⟩, connId, none⟩

theorem alone_subscribePattern (clientId : String) (p : SubjectPattern) (qos : QoSLevel)
    (connId : Option Nat) (mode : DeliveryMode) : ∃ s, Call.Alone ahash
      (b.shared, (Request.subscribe
        ⟨(Interest.pattern p).home, connId, (Interest.pattern p).wildcard⟩).call) (s, .done) ∧
      s.registry = (b.subscribePatternInner clientId p qos connId mode).1.registry := by
  rw [registry_subscribePattern hc]
  exact alone_add ahash hc ⟨_, connId, _⟩

/-- The records and the places go, whatever has become of the connections before. -/
theorem alone_remove (r : Registry) (hr : r.subscriptions = b.registry.subscriptions)
    {ids : List Nat} (hnd : ids.Nodup) (one : Bool) :
    Call.Alone ahash ({ b.shared with registry := r }, .take ids [] one)
      ({ b.shared with registry := (r.discardAll ids).unplaceAll (r.recorded ids) },
        .afterUnplace one ((r.recorded ids).map Prod.fst)) := by
  refine (alone_take hnd [] one).trans (alone_unplace (fun p hp => ?_) [] one)
  exact knows_shared hc (hr ▸ (Registry.mem_recorded.mp hp).2)

theorem alone_unsubscribeConnection (c : Nat) :
    ∃ s, Call.Alone ahash (b.shared, (Request.unsubscribeConnection c).call) (s, .done) ∧
      s.registry = (b.unsubscribeConnection c).registry := by
  have hremoved := alone_remove ahash hc (b.registry.hangUp c) rfl (hc.connections_nodup c) false
  have hsame : (b.registry.hangUp c).recorded (b.registry.connections c) =
      b.registry.recorded (b.registry.connections c) := rfl
  rw [registry_unsubscribeConnection hc, hc.forget_connection]
  rw [hsame] at hremoved
  cases hids : b.registry.recorded (b.registry.connections c) with
  | nil =>
    rw [hids] at hremoved
    exact ⟨_, .head rfl hremoved, by rfl⟩
  | cons p removed =>
    rw [hids] at hremoved
    exact ⟨_, .head rfl (hremoved.tail rfl), by rfl⟩

theorem alone_unsubscribeOne (x : Nat) :
    ∃ s, Call.Alone ahash (b.shared, (Request.unsubscribeOne x).call) (s, .done) ∧
      s.registry = (b.unsubscribeOne x).registry := by
  rw [registry_unsubscribeOne hc]
  cases hx : b.shared.registry.subscriptions x with
  | none =>
    rw [hc.forget_dead (List.forall_mem_singleton.mpr hx)]
    have hstep : (Call.take [x] [] true).next ahash b.shared =
        some (b.shared, .take [] [] true) := by simp [Call.next, hx]
    refine ⟨b.shared, .head hstep ?_, rfl⟩
    iterate 2 refine .head rfl ?_
    exact .refl
  | some home =>
    have hremoved := alone_remove ahash hc b.registry rfl (List.nodup_singleton x) true
    have hone : b.registry.recorded [x] = [(x, home)] := Registry.recorded_cons_some hx []
    have hplaces := hc.filter_recorded [x]
    rw [hone] at hremoved hplaces
    refine ⟨_, (hremoved.tail rfl).tail rfl, ?_⟩
    refine Registry.ext (funext₂ hplaces) rfl (funext fun c => ?_) rfl rfl rfl
    exact List.filter_congr fun y _ => by simp

variable (t : String) (key : Option Bytes)

/-- The wildcards come last. -/
theorem alone_wildcards (turns : String → String → Nat) (found : List (Source × Nat)) :
    ∃ turns' new,
      Call.Alone ahash ({ b.shared with turns := turns }, .publish ⟨t, key, [.wildcardsLen], found⟩)
        ({ b.shared with turns := turns' }, .publish ⟨t, key, [], found ++ new⟩) ∧
      new.map Prod.snd = b.wildcardTargets t := by
  unfold wildcardTargets
  by_cases hlen : 0 < b.wildcardSubsLen
  · have hinj : Function.Injective fun p : SubjectPattern × Nat => Read.lookup p.1 p.2 :=
      fun p q heq => Prod.ext (Read.lookup.inj heq).1 (Read.lookup.inj heq).2
    have hnd := (List.Nodup.of_map _ hc.wildcards_nodup).map hinj
    obtain ⟨turns', hreads⟩ := alone_reads ahash { b.shared with turns := turns } t key [] found
      hnd fun r hr _ => by obtain ⟨p, -, rfl⟩ := List.mem_map.mp hr; rfl
    refine ⟨turns', _, .silent nofun rfl (if_pos hlen) (.silent nofun rfl rfl hreads), ?_⟩
    rw [if_pos hlen, List.flatMap_map, List.map_flatMap, List.filterMap_eq_flatMap_toList]
    refine List.flatMap_congr fun p _ => ?_
    show (if p.1.matches t && (b.subscriptions.lookup p.2).isSome then _ else _ : List _).map _ = _
    cases p.1.matches t && (b.subscriptions.lookup p.2).isSome <;> rfl
  · rw [if_neg hlen]
    refine ⟨turns, [], .silent nofun rfl (if_neg hlen) ?_, rfl⟩
    rw [List.append_nil found]
    exact .refl

/-- A publish with a handle to the record of the topic. -/
theorem alone_publishResolved (E : Externals) {topic : Topic}
    (ht : b.topics.lookup t = some topic) :
    ∃ turns found, Call.Alone E.ahash (b.shared, (Request.publishResolved t key).call)
      ({ b.shared with turns := turns }, .publish ⟨t, key, [], found⟩) ∧
      found.map Prod.snd = b.snapshot E (b.record t none) t key := by
  have hnd : (b.shared.groups t).Nodup := by
    simpa [shared, ht] using topic.consumerGroups.keys_nodup
  obtain ⟨turns, hreads⟩ := alone_reads E.ahash b.shared t key [.wildcardsLen]
    ((b.members t none).map (Source.place none, ·))
    (hnd.map (f := Read.members) fun _ _ => Read.members.inj)
    fun r hr _ => by obtain ⟨g, -, rfl⟩ := List.mem_map.mp hr; rfl
  obtain ⟨turns', new, hwild, hnew⟩ := alone_wildcards E.ahash hc t key turns
    (_ ++ ((b.shared.groups t).map Read.members).flatMap (·.finds E.ahash b.shared t key))
  refine ⟨turns', _, .head rfl (.silent nofun rfl rfl (hreads.trans hwild)), ?_⟩
  have hsnd : ∀ (source : Source) (xs : List Nat), (xs.map (source, ·)).map Prod.snd = xs :=
    fun _ _ => by rw [List.map_map]; exact List.map_id _
  rw [snapshot_eq, chosen_eq, List.map_append, List.map_append, List.flatMap_map,
    List.map_flatMap, hnew, hsnd]
  simp only [Read.finds, hsnd, ← List.filterMap_eq_flatMap_toList]

/-- **A publish that nothing interrupts finds the targets of the broker's.** -/
theorem alone_publish (E : Externals) :
    ∃ turns found, Call.Alone E.ahash (b.shared, (Request.publish t key).call)
      ({ b.shared with turns := turns }, .publish ⟨t, key, [], found⟩) ∧
      found.map Prod.snd = b.snapshot E (b.record t none) t key := by
  cases hlookup : b.topics.lookup t with
  | some topic =>
    have ht : t ∈ b.topics.keys := AList.lookup_isSome.mp (by rw [hlookup]; rfl)
    obtain ⟨turns, found, hrest, hfound⟩ := alone_publishResolved hc t key E hlookup
    exact ⟨turns, found, .silent nofun rfl (if_pos ht) hrest, hfound⟩
  | none =>
    have ht : t ∉ b.topics.keys := AList.lookup_eq_none.mp hlookup
    obtain ⟨turns, new, hwild, hnew⟩ := alone_wildcards E.ahash hc t key b.shared.turns []
    refine ⟨turns, new, .silent nofun rfl (if_neg ht) hwild, ?_⟩
    rw [hnew, snapshot_eq, members, chosen, hlookup]
    rfl

end Broker

end BlipMQ.Core
