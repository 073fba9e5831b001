import BlipMQ.Core.Targets
import BlipMQ.Net.Server

/-!
# Net — keyed messages and consumer groups

Of a group one member gets each message: the one that the hash of the
message's key picks, or the next in turn if there is no key. A PUBLISH brings
the key along, but a message that is logged first is fanned out without it.
-/

namespace BlipMQ.Net

open BlipMQ.Core

/-! ## Where a PUBLISH goes -/

namespace Fanout

/-- Of the members of the group the message is offered to `x`, once. -/
def RoutedTo (f : Fanout) (g : String) (x : Nat) : Prop :=
  x ∈ f.before.members f.topic (some g) ∧
    ∀ y ∈ f.before.members f.topic (some g),
      f.before.Offered f.after f.offer y (if y = x then 1 else 0)

/-- Whose turn it is when the fan-out starts. -/
def turn (f : Fanout) (g : String) : Nat :=
  ((f.before.group? f.topic g).map ConsumerGroup.nextIdx).getD 0

variable {E : Externals} {config : BrokerConfig} {hasWal : Bool} {f : Fanout} {g : String}

/-- Only one member is routed to. -/
theorem RoutedTo.unique {x y : Nat} (hx : f.RoutedTo g x) (hy : f.RoutedTo g y) : x = y := by
  by_contra hne
  have hone := hx.2 x hx.1
  have hzero := hy.2 x hx.1
  rw [if_pos rfl] at hone
  rw [if_neg hne] at hzero
  exact absurd (hone.unique hzero) Nat.one_ne_zero

/-- The message goes to the member that the number picks. -/
theorem Spec.routedTo (hspec : f.Spec E hasWal)
    (hleads : (System.new config hasWal).broker.Leads E f.before)
    (hrunning : f.before.shuttingDown = false) {cg : ConsumerGroup}
    (hgroup : f.before.group? f.topic g = some cg) {x : Nat}
    (hx : cg.members[cg.number E.ahash f.routingKey % cg.members.length]? = some x) :
    f.RoutedTo g x := by
  obtain ⟨acts, hacts⟩ := hleads
  obtain ⟨now, ttl, hafter⟩ := hspec.published
  obtain ⟨s, hs⟩ : ∃ s, s = (System.new config hasWal).run E acts := ⟨_, rfl⟩
  have hbefore : f.before = s.broker := by
    rw [hs, System.broker_run]
    exact hacts
  have hsound : s.Sound := hs ▸ (System.Sound.new config hasWal).run acts
  have hpresent : s.broker.Present := hs ▸ System.present_run E config hasWal acts
  rw [hbefore] at hrunning hgroup
  obtain ⟨hmem, honly⟩ := Broker.chosen_iff hsound.consistent hgroup hx
  unfold RoutedTo
  rw [hafter, hbefore]
  refine ⟨hmem, fun y hy => ?_⟩
  have hlive : s.Live y (.exact f.topic (some g)) := (hsound.live_group f.topic g).mpr hy
  have hoffered : s.broker.Offered (s.broker.publishInner E now none f.offer ttl f.routingKey)
      f.offer y ((s.broker.targets E f.topic f.routingKey).count y) := hlive.offered hpresent
  rw [hsound.count_grouped hrunning hlive] at hoffered
  simpa only [honly y hy] using hoffered

end Fanout

section Sticky

variable {E : Externals} {config : BrokerConfig} {hasWal : Bool} {f : Fanout} {g : String}
  {key : Bytes}

/-- What picks the member for a message with a key: the hash of the key, but the
turn of the group if the message was logged. -/
theorem number_of_keyed (hspec : f.Spec E hasWal) (hkey : f.payload.partitionKey = some key)
    (hne : key ≠ []) {cg : ConsumerGroup} (hgroup : f.before.group? f.topic g = some cg) :
    cg.number E.ahash f.routingKey =
      if f.qos = .atLeastOnce ∧ hasWal = true then f.turn g else E.ahash key := by
  have hlogged : f.walId.isSome = true ↔ f.qos = .atLeastOnce ∧ hasWal = true := by
    rw [hspec.logged, Bool.and_eq_true, decide_eq_true_iff]
  unfold Fanout.routingKey Fanout.turn
  rw [hgroup, hkey]
  by_cases h : f.qos = .atLeastOnce ∧ hasWal = true
  · rw [if_pos h, if_pos (hlogged.mpr h)]
    rfl
  · rw [if_neg h, if_neg (mt hlogged.mp h)]
    exact if_neg hne

theorem exists_routedTo (hspec : f.Spec E hasWal)
    (hleads : (System.new config hasWal).broker.Leads E f.before)
    (hrunning : f.before.shuttingDown = false) (hkey : f.payload.partitionKey = some key)
    (hne : key ≠ []) (hmembers : f.before.members f.topic (some g) ≠ []) :
    ∃ x, f.RoutedTo g x ∧
      (f.before.members f.topic (some g))[(if f.qos = .atLeastOnce ∧ hasWal = true then f.turn g
        else E.ahash key) % (f.before.members f.topic (some g)).length]? = some x := by
  rw [Broker.members_eq] at hmembers ⊢
  cases hgroup : f.before.group? f.topic g with
  | none =>
    rw [hgroup] at hmembers
    exact absurd rfl hmembers
  | some cg =>
    rw [hgroup] at hmembers
    change cg.members ≠ [] at hmembers
    have hlt : cg.number E.ahash f.routingKey % cg.members.length < cg.members.length :=
      Nat.mod_lt _ (List.length_pos_iff.mpr hmembers)
    have hx := List.getElem?_eq_getElem hlt
    refine ⟨_, hspec.routedTo hleads hrunning hgroup hx, ?_⟩
    rw [← number_of_keyed hspec hkey hne hgroup]
    exact hx

/-- **When two messages with the same key reach the same member of a group.** For
any two PUBLISH frames in any run of the server, to the topic of a group that has
the same members both times: each goes to one member; they are the same exactly
if the numbers pick the same, which they do if neither message was logged. -/
theorem keyed_publishes_stick_iff (E : Externals) (config : BrokerConfig) (hasWal : Bool)
    (events : List ServerEvent) (g : String) (key : Bytes) (hkey : key ≠ []) (f₁ f₂ : Fanout)
    (h₁ : f₁ ∈ outputs (Server.step E) (Server.fanouts E) (.new config hasWal) events)
    (h₂ : f₂ ∈ outputs (Server.step E) (Server.fanouts E) (.new config hasWal) events)
    (hkey₁ : f₁.payload.partitionKey = some key) (hkey₂ : f₂.payload.partitionKey = some key)
    (hrunning₁ : f₁.before.shuttingDown = false) (hrunning₂ : f₂.before.shuttingDown = false)
    (htopic : f₂.topic = f₁.topic) (hsome : f₁.before.members f₁.topic (some g) ≠ [])
    (hmembers : f₂.before.members f₁.topic (some g) = f₁.before.members f₁.topic (some g)) :
    let n := (f₁.before.members f₁.topic (some g)).length
    let number (f : Fanout) :=
      if f.qos = .atLeastOnce ∧ hasWal = true then f.turn g else E.ahash key
    ∃ x y, f₁.RoutedTo g x ∧ f₂.RoutedTo g y ∧ (x = y ↔ number f₁ % n = number f₂ % n) ∧
      ((hasWal = true → f₁.qos = .atMostOnce ∧ f₂.qos = .atMostOnce) → x = y) := by
  intro n number
  obtain ⟨hspec₁, hleads₁⟩ := (Server.Sound.new E config hasWal).fanouts_run h₁
  obtain ⟨hspec₂, hleads₂⟩ := (Server.Sound.new E config hasWal).fanouts_run h₂
  have hsome₂ : f₂.before.members f₂.topic (some g) ≠ [] := by
    rw [htopic, hmembers]
    exact hsome
  obtain ⟨x, hroutedx, hx⟩ := exists_routedTo hspec₁ hleads₁ hrunning₁ hkey₁ hkey hsome
  obtain ⟨y, hroutedy, hy⟩ := exists_routedTo hspec₂ hleads₂ hrunning₂ hkey₂ hkey hsome₂
  rw [htopic, hmembers] at hy
  change _[number f₁ % n]? = some x at hx
  change _[number f₂ % n]? = some y at hy
  have hiff : x = y ↔ number f₁ % n = number f₂ % n := by
    constructor
    · rintro rfl
      have hconsistent := hleads₁.invariant (P := fun b => b.registry.Consistent)
        (fun _ a hb => Broker.act_consistent hb a) (System.Sound.new config hasWal).consistent
      have hlt : number f₁ % n < n := Nat.mod_lt _ (List.length_pos_iff.mpr hsome)
      exact (List.getElem?_inj hlt (hconsistent.members_nodup f₁.topic (some g))).mp
        (hx.trans hy.symm)
    · intro hsame
      rw [hsame, hy] at hx
      exact (Option.some.inj hx).symm
  refine ⟨x, y, hroutedx, hroutedy, hiff, fun hunlogged => hiff.mpr ?_⟩
  have hnumber : ∀ f : Fanout, (hasWal = true → f.qos = .atMostOnce) → number f = E.ahash key := by
    intro f hf
    refine if_neg ?_
    rintro ⟨hqos, hwal⟩
    rw [hf hwal] at hqos
    cases hqos
  rw [hnumber f₁ fun hwal => (hunlogged hwal).1, hnumber f₂ fun hwal => (hunlogged hwal).2]

end Sticky

/-! ### A group of two -/

/-- A PUBLISH of one byte to topic `a` with the key 7. -/
def keyedPublish (qos : UInt8) : Frame :=
  ⟨.publish, 1, [0x40 ||| qos, 0, 1, 7, 0, 1, 0x61, 1]⟩

/-- Two members of group `g` on topic `a`, and two PUBLISH frames on connection 1. The
log answers those that wait for it. -/
def groupOfTwo (qos : UInt8) : List ServerEvent :=
  let publish (id : Nat) : List ServerEvent :=
    [.publish 0 1 (keyedPublish qos)] ++ if qos = 1 then [.logged 0 1 (.ok id)] else []
  [.call (.subscribe "c" "a" .atMostOnce none .poll (some "g")),
    .call (.subscribe "d" "a" .atMostOnce none .poll (some "g"))] ++ publish 1 ++ publish 2

/-- The fan-outs of `groupOfTwo`. -/
def fanoutsOfTwo (qos : UInt8) : List Fanout :=
  outputs (Server.step bareExternals) (Server.fanouts bareExternals) (.new .default true)
    (groupOfTwo qos)

/-- What decides about the member, apart from the hash. -/
structure Picking where
  partitionKey : Option Bytes
  topic : String
  qos : QoSLevel
  shuttingDown : Bool
  members : List Nat
  turn : Nat
  deriving DecidableEq

def Fanout.picking (f : Fanout) : Picking where
  partitionKey := f.payload.partitionKey
  topic := f.topic
  qos := f.qos
  shuttingDown := f.before.shuttingDown
  members := f.before.members f.topic (some "g")
  turn := f.turn "g"

theorem exists_fanouts {qos : UInt8} {p₁ p₂ : Picking}
    (h : (fanoutsOfTwo qos).map Fanout.picking = [p₁, p₂]) : ∃ f₁ f₂,
      fanoutsOfTwo qos = [f₁, f₂] ∧ (f₁ ∈ fanoutsOfTwo qos ∧ f₁.picking = p₁) ∧
        f₂ ∈ fanoutsOfTwo qos ∧ f₂.picking = p₂ := by
  obtain ⟨f₁, rest, hout, h₁, hrest⟩ := List.map_eq_cons_iff.mp h
  obtain ⟨f₂, rest', rfl, h₂, hnil⟩ := List.map_eq_cons_iff.mp hrest
  obtain rfl := List.map_eq_nil_iff.mp hnil
  rw [hout]
  exact ⟨f₁, f₂, rfl, ⟨List.mem_cons_self, h₁⟩, List.mem_cons_of_mem _ List.mem_cons_self, h₂⟩

/-- With QoS 0 both messages reach the same member, log or not. -/
theorem keyed_publishes_stick_iff_unlogged : ∃ f₁ f₂ x, fanoutsOfTwo 0 = [f₁, f₂] ∧
    f₁.RoutedTo "g" x ∧ f₂.RoutedTo "g" x := by
  have hpicking : (fanoutsOfTwo 0).map Fanout.picking =
      [⟨some [7], "a", .atMostOnce, false, [1, 2], 0⟩,
        ⟨some [7], "a", .atMostOnce, false, [1, 2], 0⟩] := by decide +kernel
  obtain ⟨f₁, f₂, hout, ⟨hmem₁, h₁⟩, hmem₂, h₂⟩ := exists_fanouts hpicking
  simp only [Fanout.picking, Picking.mk.injEq] at h₁ h₂
  obtain ⟨hkey₁, htopic₁, hqos₁, hrunning₁, hmembers₁, -⟩ := h₁
  obtain ⟨hkey₂, htopic₂, hqos₂, hrunning₂, hmembers₂, -⟩ := h₂
  have hsome : f₁.before.members f₁.topic (some "g") ≠ [] := by
    rw [hmembers₁]
    decide
  rw [htopic₂] at hmembers₂
  obtain ⟨x, y, hx, hy, -, hsame⟩ := keyed_publishes_stick_iff bareExternals .default true
    (groupOfTwo 0) "g" [7] (by decide) f₁ f₂ hmem₁ hmem₂ hkey₁ hkey₂ hrunning₁ hrunning₂
    (htopic₂.trans htopic₁.symm) hsome (by rw [hmembers₁, htopic₁, hmembers₂])
  obtain rfl := hsame fun _ => ⟨hqos₁, hqos₂⟩
  exact ⟨f₁, f₂, x, hout, hx, hy⟩

/-- With QoS 1 and a log the same two messages reach two members. -/
theorem logged_keys_take_turns : ∃ f₁ f₂, fanoutsOfTwo 1 = [f₁, f₂] ∧
    f₁.picking = ⟨some [7], "a", .atLeastOnce, false, [1, 2], 0⟩ ∧ f₁.RoutedTo "g" 1 ∧
    f₂.picking = ⟨some [7], "a", .atLeastOnce, false, [1, 2], 1⟩ ∧ f₂.RoutedTo "g" 2 ∧
    ¬ ∃ x, f₁.RoutedTo "g" x ∧ f₂.RoutedTo "g" x := by
  have hpicking : (fanoutsOfTwo 1).map Fanout.picking =
      [⟨some [7], "a", .atLeastOnce, false, [1, 2], 0⟩,
        ⟨some [7], "a", .atLeastOnce, false, [1, 2], 1⟩] := by decide +kernel
  have hrouted : ∀ f ∈ fanoutsOfTwo 1, ∀ turn x,
      f.picking = ⟨some [7], "a", .atLeastOnce, false, [1, 2], turn⟩ →
        [1, 2][turn % 2]? = some x → f.RoutedTo "g" x := by
    intro f hf turn x h hx
    obtain ⟨hspec, hleads⟩ := (Server.Sound.new bareExternals .default true).fanouts_run hf
    simp only [Fanout.picking, Picking.mk.injEq] at h
    obtain ⟨hkey, -, hqos, hrunning, hmembers, hturn⟩ := h
    obtain ⟨y, hy, hpick⟩ := exists_routedTo hspec hleads hrunning hkey (by decide)
      (by rw [hmembers]; decide)
    rw [hmembers, hqos, if_pos ⟨rfl, rfl⟩, hturn] at hpick
    obtain rfl := Option.some.inj (hx.symm.trans hpick)
    exact hy
  obtain ⟨f₁, f₂, hout, ⟨hmem₁, h₁⟩, hmem₂, h₂⟩ := exists_fanouts hpicking
  have hone := hrouted f₁ hmem₁ 0 1 h₁ rfl
  have htwo := hrouted f₂ hmem₂ 1 2 h₂ rfl
  refine ⟨f₁, f₂, hout, h₁, hone, h₂, htwo, ?_⟩
  rintro ⟨x, hx₁, hx₂⟩
  have hsame : 1 = 2 := (hone.unique hx₁).trans (hx₂.unique htwo)
  cases hsame

end BlipMQ.Net
