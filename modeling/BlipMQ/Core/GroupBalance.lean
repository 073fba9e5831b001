import BlipMQ.Core.ExactPattern
import BlipMQ.Core.Kept
import BlipMQ.Lib.Turns

/-!
# Broker — how a group shares its messages

A publish without a partition key takes a number from the counter of each
group on its topic, and the number picks the member. A publish with a key
leaves the counters alone. So as long as nobody joins or leaves, the members
of a group take turns at the publishes without a key, whatever else is
published meanwhile.
-/

namespace BlipMQ.Core

/-- No partition key, or an empty one. -/
def PublishCall.unkeyed (c : PublishCall) : Bool := c.partitionKey.all (· = [])

namespace ConsumerGroup

variable {cg : ConsumerGroup} {key : Option Bytes}

theorem number_unkeyed (ahash : Bytes → Nat) (h : key.all (· = []) = true) (cg : ConsumerGroup) :
    cg.number ahash key = cg.nextIdx := by
  cases key with
  | none => rfl
  | some key => exact if_pos (of_decide_eq_true h)

/-- A publish without a key takes a number. -/
theorem nextIdx_choose_unkeyed (ahash : Bytes → Nat) (h : key.all (· = []) = true)
    (hne : cg.members ≠ []) : (cg.choose ahash key).2.nextIdx = (cg.nextIdx + 1) % 2 ^ 64 := by
  unfold choose
  rw [if_neg hne]
  cases key with
  | none => rfl
  | some key =>
    dsimp only
    rw [if_pos (of_decide_eq_true h)]
    rfl

/-- A publish with a key does not. -/
theorem nextIdx_choose_keyed (ahash : Bytes → Nat) (h : key.all (· = []) = false)
    (cg : ConsumerGroup) : (cg.choose ahash key).2.nextIdx = cg.nextIdx := by
  unfold choose
  cases key with
  | none => cases h
  | some key =>
    dsimp only
    rw [if_neg (of_decide_eq_false h)]
    split <;> rfl

end ConsumerGroup

namespace Broker

/-! ## The counters -/

/-- The counter of a group. -/
def turn (b : Broker) (t g : String) : Option Nat := (b.group? t g).map ConsumerGroup.nextIdx

section Turn

variable {E : Externals} {b b' : Broker} {t g : String}

theorem turn_of_topics (h : b'.topics = b.topics) : b'.turn t g = b.turn t g := by
  rw [turn, turn, group?, group?, h]

/-- A change of a topic record that leaves the counters of its groups alone. -/
theorem turn_modifyAt {name : String} {f : Topic → Topic}
    (hf : ∀ topic, ((f topic).consumerGroups.lookup g).map ConsumerGroup.nextIdx =
      (topic.consumerGroups.lookup g).map ConsumerGroup.nextIdx)
    (h : b'.topics = modifyAt b.topics name f) : b'.turn t g = b.turn t g := by
  rw [turn, turn, group?, group?, h, lookup_modifyAt]
  by_cases ht : t = name
  · rw [if_pos ht, ← ht]
    cases b.topics.lookup t with
    | none => rfl
    | some topic => exact hf topic
  · rw [if_neg ht]

/-- What a publish does to the counters of the groups on its topic. -/
theorem turn_startPublish (record : Option String) (walId : Option Nat) (key : Option Bytes) :
    (b.startPublish E record walId key).turn t g =
      if record = some t then
        (b.group? t g).map fun cg => (cg.choose E.ahash key).2.nextIdx
      else b.turn t g := by
  cases record with
  | none => exact turn_of_topics rfl
  | some name =>
    rw [turn, group?]
    show (((modifyAt b.topics name _).lookup t).bind _).map _ = _
    rw [lookup_modifyAt]
    by_cases ht : t = name
    · subst ht
      rw [if_pos rfl, if_pos rfl, group?]
      cases b.topics.lookup t with
      | none => rfl
      | some topic =>
        simp only [Option.map_some, Option.bind_some, Topic.advance, lookup_filterMapValues]
        cases topic.consumerGroups.lookup g <;> rfl
    · rw [if_neg ht, if_neg fun heq => ht (Option.some.inj heq).symm]
      rfl

theorem turn_endPublish (record : Option String) (delivered dropped : Nat) :
    (b.endPublish record delivered dropped).turn t g = b.turn t g := by
  cases record with
  | none => exact turn_of_topics rfl
  | some name =>
    refine turn_modifyAt ?_ rfl
    exact fun _ => rfl

/-- Who leaves a group does not move its counter. -/
theorem turn_unsubscribeOne (b : Broker) (x : Nat) :
    (b.unsubscribeOne x).turn t g = b.turn t g := by
  unfold unsubscribeOne
  split
  · rfl
  · rename_i subRef _
    refine turn_modifyAt (fun topic => ?_) rfl
    cases subRef.group with
    | none => rfl
    | some g' =>
      simp only [Topic.remove, lookup_modifyAt]
      split
      · rename_i heq
        rw [heq]
        cases topic.consumerGroups.lookup g' <;> rfl
      · rfl

theorem turn_foldl {α : Type*} {f : Broker → α → Broker}
    (hf : ∀ b a, (f b a).turn t g = b.turn t g) (as : List α) (b : Broker) :
    (as.foldl f b).turn t g = b.turn t g := by
  induction as generalizing b with
  | nil => rfl
  | cons a as ih => exact (ih (f b a)).trans (hf b a)

/-- Does the publish fan out on the record of the topic? -/
def reaches (b : Broker) (t : String) (c : PublishCall) : Bool :=
  !b.shuttingDown && b.record c.offer.topic c.preResolved = some t

/-- **The counter after a publish.** -/
theorem turn_publish (c : PublishCall) :
    (b.act E c.action).turn t g =
      if b.reaches t c then
        (b.group? t g).map fun cg => (cg.choose E.ahash c.partitionKey).2.nextIdx
      else b.turn t g := by
  show (b.publishInner E c.now c.preResolved c.offer c.ttlOverride c.partitionKey).turn t g = _
  unfold reaches
  rcases publishInner_cases E b c.now c.preResolved c.offer c.ttlOverride c.partitionKey with
    ⟨hdown, heq⟩ | ⟨hrunning, b₁, _, _, _, evicted, -, hserved, heq, -⟩
  · rw [heq, hdown]
    rfl
  · rw [heq, turn_foldl turn_unsubscribeOne, turn_endPublish, turn_of_topics hserved.topics,
      turn_startPublish, hrunning]
    simp

end Turn

/-! ## The members' turns -/

/-- The member of a group that a publish goes to. -/
def choice (E : Externals) (t g : String) (b : Broker) (c : PublishCall) : Option Nat :=
  (b.group? t g).bind fun cg => (cg.choose E.ahash c.partitionKey).1

/-- Publishes on a topic without a key. -/
def takesTurn (b : Broker) (t : String) (c : PublishCall) : Bool := b.reaches t c && c.unkeyed

/-- The publishes on a topic without a key, along a sequence of publishes. -/
def unkeyedOn (E : Externals) (t : String) (b : Broker) (calls : List PublishCall) :
    List PublishCall :=
  emitted (fun b c => b.act E c.action) (fun b c => if b.takesTurn t c then [c] else []) b calls

/-- The members of a group that they go to. -/
def choices (E : Externals) (t g : String) (b : Broker) (calls : List PublishCall) :
    List (Option Nat) :=
  emitted (fun b c => b.act E c.action)
    (fun b c => if b.takesTurn t c then [choice E t g b c] else []) b calls

/-- Nobody joins or leaves the group. -/
def MembersFixed (E : Externals) (t g : String) (b : Broker) (calls : List PublishCall) : Prop :=
  ∀ done, done <+: calls → (b.publishAll E done).members t (some g) = b.members t (some g)

section Balance

variable {E : Externals} {b : Broker} {t g : String} {c : PublishCall} {cg : ConsumerGroup}
  {calls : List PublishCall}

theorem choice_unkeyed (hgroup : b.group? t g = some cg) (hne : cg.members ≠ [])
    (hkey : c.unkeyed = true) :
    choice E t g b c = cg.members[cg.nextIdx % cg.members.length]? := by
  rw [choice, hgroup, Option.bind_some, ConsumerGroup.choose_fst hne,
    ConsumerGroup.number_unkeyed _ hkey]

/-- A group whose members stay has its counter moved by the publishes without a key. -/
theorem group?_publish (hgroup : b.group? t g = some cg) (hne : cg.members ≠ [])
    (hsame : (b.act E c.action).members t (some g) = cg.members) :
    ∃ cg', (b.act E c.action).group? t g = some cg' ∧ cg'.members = cg.members ∧
      cg'.nextIdx = if b.takesTurn t c then (cg.nextIdx + 1) % 2 ^ 64 else cg.nextIdx := by
  have hturn := turn_publish (E := E) (b := b) (t := t) (g := g) c
  rw [turn, turn, hgroup, Option.map_some, Option.map_some] at hturn
  rw [members_eq] at hsame
  cases hafter : (b.act E c.action).group? t g with
  | none =>
    rw [hafter] at hsame
    exact absurd hsame.symm hne
  | some cg' =>
    rw [hafter] at hsame hturn
    refine ⟨cg', rfl, hsame, ?_⟩
    rw [takesTurn]
    cases hreaches : b.reaches t c with
    | false =>
      rw [hreaches] at hturn
      exact Option.some.inj hturn
    | true =>
      rw [hreaches] at hturn
      have hnext := Option.some.inj hturn
      cases hkey : c.unkeyed with
      | true => exact hnext.trans (ConsumerGroup.nextIdx_choose_unkeyed _ hkey hne)
      | false => exact hnext.trans (ConsumerGroup.nextIdx_choose_keyed _ hkey cg)

theorem MembersFixed.tail (h : MembersFixed E t g b (c :: calls)) :
    MembersFixed E t g (b.act E c.action) calls := by
  intro done hdone
  have hfirst := h [c] (List.prefix_append [c] calls)
  exact (h (c :: done) (List.cons_prefix_cons.mpr ⟨rfl, hdone⟩)).trans hfirst.symm

/-- **The members take turns**: the publishes without a key go round the group, and
how many there were is all that counts. -/
theorem choices_eq_turns (hgroup : b.group? t g = some cg) (hne : cg.members ≠ [])
    (hfixed : MembersFixed E t g b calls)
    (hroom : cg.nextIdx + (unkeyedOn E t b calls).length < 2 ^ 64) :
    choices E t g b calls = turns cg.members cg.nextIdx (unkeyedOn E t b calls).length := by
  induction calls generalizing b cg with
  | nil => rfl
  | cons c calls ih =>
    have hsame : (b.act E c.action).members t (some g) = cg.members := by
      have hfirst := hfixed [c] (List.prefix_append [c] calls)
      rwa [members_eq b, hgroup] at hfirst
    obtain ⟨cg', hgroup', hmembers, hnext⟩ := group?_publish hgroup hne hsame
    have hrest := ih hgroup' (hmembers ▸ hne) hfixed.tail
    rw [hmembers] at hrest
    rw [unkeyedOn, emitted] at hroom ⊢
    rw [choices, emitted]
    cases hturn : b.takesTurn t c with
    | false =>
      rw [hturn] at hnext hroom
      rw [show cg'.nextIdx = cg.nextIdx from hnext] at hrest
      exact hrest hroom
    | true =>
      have hkey : c.unkeyed = true := (Bool.and_eq_true_iff.mp hturn).2
      rw [hturn] at hnext hroom
      have hlen : (unkeyedOn E t (b.act E c.action) calls).length + 1 + cg.nextIdx < 2 ^ 64 := by
        rw [Nat.add_comm]
        exact hroom
      rw [if_pos rfl, Nat.mod_eq_of_lt (by omega)] at hnext
      rw [hnext] at hrest
      have hmore := hrest (by omega)
      rw [if_pos rfl, if_pos rfl, choice_unkeyed hgroup hne hkey]
      exact (congrArg (List.cons _) hmore).trans (turns_succ ..).symm

/-- Under `drop_newest` a publish removes nobody. -/
theorem registry_publish_dropNewest (h : b.config.slowConsumerPolicy = .dropNewest)
    (c : PublishCall) : (b.act E c.action).registry = b.registry := by
  show (b.publishInner E c.now c.preResolved c.offer c.ttlOverride c.partitionKey).registry = _
  rcases publishInner_cases E b c.now c.preResolved c.offer c.ttlOverride c.partitionKey with
    ⟨-, heq⟩ | ⟨-, b₁, _, _, _, evicted, -, hserved, heq, -, hnobody⟩
  · rw [heq]
  · rw [heq, hnobody h, List.foldl_nil, registry_endPublish, hserved.registry,
      registry_startPublish]

theorem membersFixed_of_dropNewest (h : b.config.slowConsumerPolicy = .dropNewest)
    (t g : String) (calls : List PublishCall) : MembersFixed E t g b calls := by
  intro done hdone
  clear hdone
  induction done generalizing b with
  | nil => rfl
  | cons c done ih =>
    have hone : (b.act E c.action).members = b.members :=
      congrArg Registry.members (registry_publish_dropNewest h c)
    have hrest := ih (b := b.act E c.action) (by rw [act_config]; exact h)
    rwa [hone] at hrest

/-- What is counted where every publish is one to the topic by its name. -/
theorem unkeyedOn_eq_filter (hrunning : b.shuttingDown = false)
    (htopic : (b.resolveTopic t).isSome = true)
    (hcalls : ∀ c ∈ calls, c.offer.topic = t ∧ c.preResolved = none) :
    unkeyedOn E t b calls = calls.filter PublishCall.unkeyed := by
  induction calls generalizing b with
  | nil => rfl
  | cons c calls ih =>
    obtain ⟨hname, hpre⟩ := hcalls c List.mem_cons_self
    obtain ⟨r, hr⟩ := Option.isSome_iff_exists.mp htopic
    have hreaches : b.reaches t c = true := by
      obtain ⟨topic, ht, -⟩ := Option.map_eq_some_iff.mp hr
      rw [reaches, hrunning, hpre, hname, record, ht]
      exact decide_eq_true rfl
    have hrunning' : (b.act E c.action).shuttingDown = false := by
      rw [PublishCall.action, act_shuttingDown BrokerAction.noConfusion]
      exact hrunning
    have hrest := ih hrunning' (by rw [resolveTopic_act hr]; rfl)
      fun c' hc' => hcalls c' (List.mem_cons_of_mem c hc')
    rw [unkeyedOn, emitted, List.filter_cons]
    rw [unkeyedOn] at hrest
    rw [hrest, takesTurn, hreaches, Bool.true_and]
    split <;> rfl

end Balance

/-- **A group shares its messages evenly.** Of the publishes on the topic without a
key every member gets the quotient, rounded down or up, as long as nobody joins or
leaves. Which of them it gets does not depend on what else is published. -/
theorem group_shares_evenly (E : Externals) (b : Broker) (t g : String) (cg : ConsumerGroup)
    (hgroup : b.group? t g = some cg) (hne : cg.members ≠ []) (hnd : cg.members.Nodup)
    (calls : List PublishCall) (hfixed : MembersFixed E t g b calls)
    (hroom : cg.nextIdx + (unkeyedOn E t b calls).length < 2 ^ 64) :
    let k := (unkeyedOn E t b calls).length
    let m := cg.members.length
    (∀ x ∈ cg.members, (choices E t g b calls).count (some x) = k / m ∨
        (choices E t g b calls).count (some x) = (k + m - 1) / m) ∧
      ∀ others, MembersFixed E t g b others → unkeyedOn E t b others = unkeyedOn E t b calls →
        choices E t g b others = choices E t g b calls := by
  intro k m
  have hturns := choices_eq_turns hgroup hne hfixed hroom
  refine ⟨fun x hx => ?_, fun others hfixed' hsame => ?_⟩
  · rw [hturns]
    exact count_turns_floor_or_ceil hnd hx cg.nextIdx k
  · have hturns' := choices_eq_turns hgroup hne hfixed' (hsame ▸ hroom)
    rw [hturns', hturns, hsame]

/-- Two members of one group on `jobs`. -/
def twoWorkers : Broker :=
  ((System.new .default false).run bareExternals
    [.subscribe "c" "jobs" .atMostOnce none .poll (some "g"),
      .subscribe "d" "jobs" .atMostOnce none .poll (some "g")]).broker

def job (partitionKey : Option Bytes) : PublishCall :=
  ⟨0, none, ⟨none, "jobs", [1], .atMostOnce⟩, none, partitionKey⟩

/-- Three publishes without a key, and two with one between them. -/
theorem group_shares_evenly_three_jobs :
    let calls := [job none, job (some [5]), job (some []), job (some [6, 6]), job none]
    twoWorkers.group? "jobs" "g" = some ⟨[1, 2], 0⟩ ∧
    choices bareExternals "jobs" "g" twoWorkers calls = [some 1, some 2, some 1] ∧
    choices bareExternals "jobs" "g" twoWorkers (calls.filter PublishCall.unkeyed) =
      choices bareExternals "jobs" "g" twoWorkers calls ∧
    ((choices bareExternals "jobs" "g" twoWorkers calls).count (some 2) = 3 / 2 ∨
      (choices bareExternals "jobs" "g" twoWorkers calls).count (some 2) = (3 + 2 - 1) / 2) := by
  intro calls
  have hgroup : twoWorkers.group? "jobs" "g" = some ⟨[1, 2], 0⟩ := by decide +kernel
  have hfixed := membersFixed_of_dropNewest (E := bareExternals) (b := twoWorkers)
    (by decide +kernel) "jobs" "g"
  have hcount (calls : List PublishCall)
      (hjobs : ∀ c ∈ calls, c.offer.topic = "jobs" ∧ c.preResolved = none) :
      unkeyedOn bareExternals "jobs" twoWorkers calls = calls.filter PublishCall.unkeyed :=
    unkeyedOn_eq_filter (by decide +kernel) (by decide +kernel) hjobs
  have hcalls : unkeyedOn bareExternals "jobs" twoWorkers calls =
      [job none, job (some []), job none] := hcount calls (by decide)
  obtain ⟨heven, hothers⟩ := group_shares_evenly bareExternals twoWorkers "jobs" "g" _ hgroup
    (by decide) (by decide) calls (hfixed calls) (by rw [hcalls]; decide)
  rw [hcalls] at heven hothers
  exact ⟨hgroup, by decide +kernel,
    hothers _ (hfixed _) ((hcount _ (by decide)).trans (by decide)), heven 2 (by decide)⟩

end Broker

end BlipMQ.Core
