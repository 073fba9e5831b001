import BlipMQ.Core.Registry

/-!
# Broker — the registries stay consistent

Every call adds one subscription to the registry or forgets some, so the
structures agree after every run, and they agree with what the
subscriptions were made for.
-/

namespace BlipMQ.Core

namespace Broker

/-! ## Every call -/

section Forgets

variable {E : Externals} {b b' : Broker}

/-- Some subscriptions are forgotten, and nothing else changes. -/
def Drops (b b' : Broker) : Prop := ∃ ids, b'.registry = b.registry.forget ids

theorem Drops.of_eq (h : b.registry.Consistent) (heq : b'.registry = b.registry) : Drops b b' := by
  refine ⟨[], heq.trans (h.forget_dead fun x hx => ?_).symm⟩
  cases hx

theorem Drops.consistent (h : b.registry.Consistent) (hd : Drops b b') :
    b'.registry.Consistent := by
  obtain ⟨ids, heq⟩ := hd
  rw [heq]
  exact h.forget ids

theorem Registry.forget_forget (r : Registry) (xs ys : List Nat) :
    (r.forget xs).forget ys = r.forget (xs ++ ys) := by
  have hfilter : ∀ {α : Type} (f : α → Nat) (l : List α),
      (l.filter (f · ∉ xs)).filter (f · ∉ ys) = l.filter (f · ∉ xs ++ ys) := by
    intro α f l
    rw [List.filter_filter]
    refine List.filter_congr fun a _ => ?_
    simp [not_or, Bool.and_comm]
  refine Registry.ext ?_ ?_ ?_ (hfilter Prod.snd r.wildcards)
    (congrArg List.length (hfilter Prod.snd r.wildcards)) rfl
  · funext t g
    exact hfilter id (r.members t g)
  · funext x
    show (if x ∈ ys then none else if x ∈ xs then none else r.subscriptions x) =
      if x ∈ xs ++ ys then none else r.subscriptions x
    by_cases hx : x ∈ xs <;> by_cases hy : x ∈ ys <;> simp [hx, hy]
  · funext c
    exact hfilter id (r.connections c)

theorem Drops.trans {b'' : Broker} (h : Drops b b') (h' : Drops b' b'') : Drops b b'' := by
  obtain ⟨xs, heq⟩ := h
  obtain ⟨ys, heq'⟩ := h'
  exact ⟨xs ++ ys, by rw [heq', heq, Registry.forget_forget]⟩

theorem Drops.foldl {α : Type*} {f : Broker → α → Broker}
    (hf : ∀ b a, b.registry.Consistent → Drops b (f b a)) (as : List α)
    (h : b.registry.Consistent) : Drops b (as.foldl f b) := by
  induction as generalizing b with
  | nil => exact .of_eq h rfl
  | cons a as ih =>
    have hone := hf b a h
    exact hone.trans (ih (hone.consistent h))

theorem Drops.congr_left {b'' : Broker} (heq : b'.registry = b.registry) (h : Drops b' b'') :
    Drops b b'' := by
  obtain ⟨ids, hids⟩ := h
  exact ⟨ids, by rw [hids, heq]⟩

theorem registry_unsubscribeAll (h : b.registry.Consistent) (ids : List Nat) :
    (ids.foldl unsubscribeOne b).registry = b.registry.forget ids := by
  induction ids generalizing b with
  | nil => exact (h.forget_dead (List.forall_mem_nil _)).symm
  | cons x ids ih =>
    have hone := registry_unsubscribeOne h x
    rw [List.foldl_cons, ih (hone ▸ h.forget [x]), hone, Registry.forget_forget]
    rfl

/-- A publish removes subscriptions that had no room, or nothing. -/
theorem registry_publishInner (h : b.registry.Consistent) (now : Nat) (pre : Option ResolvedTopic)
    (o : Offer) (ttl : Option Nat) (key : Option Bytes) :
    ∃ ids, (b.publishInner E now pre o ttl key).registry = b.registry.forget ids ∧
      ∀ x ∈ ids, b.shuttingDown = false ∧ x ∈ ((b.startPublish E (b.record o.topic pre) o.walId
        key).fanOut E now o (ttl.or (some b.config.messageTtl))
          (b.snapshot E (b.record o.topic pre) o.topic key)).2 := by
  rcases publishInner_cases E b now pre o ttl key with
    ⟨-, heq⟩ | ⟨hrunning, b₁, _, delivered, dropped, evicted, hfan, hserved, heq, hslow, -⟩
  · rw [heq]
    exact ⟨[], (h.forget_dead (List.forall_mem_nil _)).symm, List.forall_mem_nil _⟩
  · have hbefore : (b₁.endPublish (b.record o.topic pre) delivered dropped).registry =
        b.registry := by
      rw [registry_endPublish, hserved.registry, registry_startPublish]
    refine ⟨evicted, ?_, fun x hx => ⟨hrunning, ?_⟩⟩
    · rw [heq, registry_unsubscribeAll (hbefore ▸ h), hbefore]
    · rw [hfan]
      exact hslow x hx

theorem publishInner_drops (h : b.registry.Consistent) (now : Nat) (pre : Option ResolvedTopic)
    (o : Offer) (ttl : Option Nat) (key : Option Bytes) :
    Drops b (b.publishInner E now pre o ttl key) := by
  obtain ⟨ids, hids, -⟩ := registry_publishInner (E := E) h now pre o ttl key
  exact ⟨ids, hids⟩

theorem registry_tickQueues (now : Nat) : (b.tickQueues now).1.registry = b.registry :=
  tickQueues_invariant (P := fun b' => b'.registry = b.registry) rfl now fun _ _ _ h _ => h

theorem maintenanceTick_drops (h : b.registry.Consistent) (now clock : Nat) :
    Drops b (b.maintenanceTick E now clock) := by
  have hwalk : Drops b (b.tickQueues now).1 := .of_eq h (registry_tickQueues now)
  exact hwalk.trans (.foldl (fun b letter hb => publishInner_drops hb ..) _ (hwalk.consistent h))

theorem registry_replayFromWal (now : Nat) (log : Log) (checkpoint : Option CheckpointSnapshot) :
    (b.replayFromWalWithCheckpoint E now log checkpoint).registry = b.registry := by
  obtain ⟨b₁, hserved, heq⟩ := replay_served E now log b checkpoint
  rw [heq]
  exact hserved.registry

theorem registry_replayTo (now : Nat) (topic : String) (x : Nat) (r : Wal.WalRecord) :
    (replayTo E now topic x b r).registry = b.registry := by
  unfold replayTo
  split
  · split
    · exact (deliver_served ..).registry
    · rfl
  · rfl

theorem registry_poll (now x : Nat) : (b.poll now x).1.registry = b.registry := by
  unfold poll
  split <;> rfl

theorem registry_ack (x tag : Nat) :
    (((b.ack x tag).map Prod.fst).getD b).registry = b.registry := by
  unfold ack
  split
  · split <;> rfl
  · rfl

end Forgets

end Broker

/-! ## Systems -/

namespace System

/-- The registries agree with each other and with the registrations: what is
live was registered, stands where its interest says, and is listed with its
connection. -/
structure Sound (s : System) : Prop where
  consistent : s.broker.registry.Consistent
  registered : ∀ x home, s.broker.subscriptions.lookup x = some home →
    ∃ reg, s.registrations.lookup x = some reg ∧ home = reg.interest.home
  old : ∀ x reg, s.registrations.lookup x = some reg → x < s.broker.nextSubscriptionId
  connected : ∀ x reg c, s.registrations.lookup x = some reg → reg.connId = some c →
    (s.broker.subscriptions.lookup x).isSome → x ∈ s.broker.registry.connections c
  wildcards : ∀ x reg p, s.registrations.lookup x = some reg →
    (s.broker.subscriptions.lookup x).isSome →
    ((p, x) ∈ s.broker.wildcardSubs ↔ reg.interest.wildcard = some p)
  parsed : ∀ x reg p, s.registrations.lookup x = some reg → reg.interest = .pattern p →
    SubjectPattern.parse p.raw = .ok p

theorem Sound.new (config : BrokerConfig) (hasWal : Bool) : (new config hasWal).Sound where
  consistent := {
    placed := fun x t g => by
      show List.count x [] = if none = some (⟨t, g⟩ : SubscriptionRef) then 1 else 0
      simp
    fresh := nofun
    connections_nodup := fun _ => .nil
    connections_live := fun _ _ hx => nomatch hx
    connections_disjoint := fun _ _ _ hx => nomatch hx
    wildcards_nodup := .nil
    wildcards_live := nofun
    wildcardsLen := rfl }
  registered := nofun
  old := nofun
  connected := nofun
  wildcards := nofun
  parsed := nofun

/-- What a call does to the registries. -/
theorem act_cases (E : Externals) {s : System} (h : s.broker.registry.Consistent)
    (a : BrokerAction) :
    (s.broker.Drops (s.act E a).broker ∧ (s.act E a).registrations = s.registrations) ∨
    ∃ reg, newRegistration a = some reg ∧
      (s.act E a).broker.registry =
        s.broker.registry.add reg.interest.home reg.connId reg.interest.wildcard ∧
      (s.act E a).registrations =
        s.registrations.insert s.broker.nextSubscriptionId reg := by
  cases a with
  | subscribe clientId topic qos connId mode group =>
    exact .inr ⟨_, rfl, Broker.registry_subscribe .., rfl⟩
  | subscribePattern clientId pattern qos connId mode =>
    cases hparse : SubjectPattern.parse pattern with
    | error e =>
      refine .inl ⟨.of_eq h ?_, ?_⟩
      · simp only [act, Broker.act, hparse]
      · simp only [act, newRegistration, hparse]
    | ok p =>
      refine .inr ⟨⟨.pattern p, connId⟩, ?_, ?_, ?_⟩
      · simp only [newRegistration, hparse]
      · simp only [act, Broker.act, hparse]
        exact Broker.registry_subscribePattern h clientId p qos connId mode
      · simp only [act, newRegistration, hparse]
  | unsubscribeConnection connId =>
    exact .inl ⟨⟨_, Broker.registry_unsubscribeConnection h connId⟩, rfl⟩
  | publish now pre o ttl key => exact .inl ⟨Broker.publishInner_drops h .., rfl⟩
  | poll now subId => exact .inl ⟨.of_eq h (Broker.registry_poll now subId), rfl⟩
  | ack subId tag => exact .inl ⟨.of_eq h (Broker.registry_ack subId tag), rfl⟩
  | maintenanceTick now clock => exact .inl ⟨Broker.maintenanceTick_drops h now clock, rfl⟩
  | replayFromWal now log checkpoint =>
    exact .inl ⟨.of_eq h (Broker.registry_replayFromWal now log checkpoint), rfl⟩
  | replayToSubscriber now log subId fromOffset =>
    refine .inl ⟨.of_eq h ?_, rfl⟩
    simp only [act, Broker.act, Broker.replayToSubscriber]
    split
    · rfl
    · exact Broker.registry_foldl (fun b r => Broker.registry_replayTo now _ subId r) _ _
  | buffers slots channels => exact .inl ⟨.of_eq h rfl, rfl⟩
  | beginShutdown => exact .inl ⟨.of_eq h rfl, rfl⟩

section Sound

variable {E : Externals} {s s' : System}

theorem Sound.drops (h : s.Sound) (hd : s.broker.Drops s'.broker)
    (hreg : s'.registrations = s.registrations) : s'.Sound := by
  obtain ⟨ids, heq⟩ := hd
  have hsubs : ∀ x, s'.broker.subscriptions.lookup x =
      if x ∈ ids then none else s.broker.subscriptions.lookup x :=
    fun x => congrFun (congrArg Registry.subscriptions heq) x
  have hwild : s'.broker.wildcardSubs = s.broker.wildcardSubs.filter (·.2 ∉ ids) :=
    congrArg Registry.wildcards heq
  have hnext : s'.broker.nextSubscriptionId = s.broker.nextSubscriptionId :=
    congrArg Registry.nextId heq
  have hlive : ∀ x, (s'.broker.subscriptions.lookup x).isSome →
      x ∉ ids ∧ (s.broker.subscriptions.lookup x).isSome := by
    intro x hx
    rw [hsubs] at hx
    split at hx
    · cases hx
    · exact ⟨‹_›, hx⟩
  refine
    { consistent := heq ▸ h.consistent.forget ids, registered := ?_, old := ?_, connected := ?_
      wildcards := ?_, parsed := fun x reg p hx => h.parsed x reg p (hreg ▸ hx) }
  · intro x home hx
    rw [hsubs] at hx
    rw [hreg]
    split at hx
    · cases hx
    · exact h.registered x home hx
  · intro x reg hx
    rw [hnext]
    exact h.old x reg (hreg ▸ hx)
  · intro x reg c hx hc hs
    obtain ⟨hnot, hs⟩ := hlive x hs
    rw [heq]
    exact List.mem_filter.mpr ⟨h.connected x reg c (hreg ▸ hx) hc hs, decide_eq_true hnot⟩
  · intro x reg p hx hs
    obtain ⟨hnot, hs⟩ := hlive x hs
    rw [← h.wildcards x reg p (hreg ▸ hx) hs, hwild, List.mem_filter]
    exact and_iff_left (decide_eq_true hnot)

theorem Sound.add (h : s.Sound) {reg : Registration}
    (hparsed : ∀ p, reg.interest = .pattern p → SubjectPattern.parse p.raw = .ok p)
    (heq : s'.broker.registry =
      s.broker.registry.add reg.interest.home reg.connId reg.interest.wildcard)
    (hreg : s'.registrations = s.registrations.insert s.broker.nextSubscriptionId reg) :
    s'.Sound := by
  have hsubs : ∀ x, s'.broker.subscriptions.lookup x =
      if x = s.broker.nextSubscriptionId then some reg.interest.home
      else s.broker.subscriptions.lookup x :=
    fun x => congrFun (congrArg Registry.subscriptions heq) x
  have hregs : ∀ {x reg'}, s'.registrations.lookup x = some reg' →
      x = s.broker.nextSubscriptionId ∧ reg = reg' ∨
        x ≠ s.broker.nextSubscriptionId ∧ s.registrations.lookup x = some reg' :=
    fun hx => lookup_insert_eq_some.mp (hreg ▸ hx)
  have hconn : ∀ c x, x ∈ s'.broker.registry.connections c ↔
      x ∈ s.broker.registry.connections c ∨
        (reg.connId = some c ∧ x = s.broker.nextSubscriptionId) :=
    fun c x => heq ▸ Registry.mem_connections_add ..
  have hwild : ∀ p x, (p, x) ∈ s'.broker.registry.wildcards ↔
      (p, x) ∈ s.broker.wildcardSubs ∨
        x = s.broker.nextSubscriptionId ∧ reg.interest.wildcard = some p :=
    fun p x => heq ▸ Registry.mem_wildcards_add ..
  have hnext : s'.broker.nextSubscriptionId = s.broker.nextSubscriptionId + 1 :=
    congrArg Registry.nextId heq
  -- no wildcard entry was there for the new id, and no other id gets one
  have hnew : ∀ p, (p, s.broker.nextSubscriptionId) ∉ s.broker.wildcardSubs := by
    intro p hp
    exact Nat.lt_irrefl _ (h.consistent.fresh _ (h.consistent.wildcards_live _ hp))
  refine
    { consistent := heq ▸ h.consistent.add .., registered := ?_, old := ?_, connected := ?_
      wildcards := ?_, parsed := ?_ }
  · intro x home hx
    rw [hsubs] at hx
    rw [hreg, lookup_insert_eq]
    by_cases hxn : x = s.broker.nextSubscriptionId
    · rw [if_pos hxn] at hx ⊢
      exact ⟨reg, rfl, (Option.some.inj hx).symm⟩
    · rw [if_neg hxn] at hx ⊢
      exact h.registered x home hx
  · intro x reg' hx
    rw [hnext]
    rcases hregs hx with ⟨rfl, -⟩ | ⟨-, hx⟩
    · exact Nat.lt_succ_self _
    · exact Nat.lt_succ_of_lt (h.old x reg' hx)
  · intro x reg' c hx hc hs
    refine (hconn c x).mpr ?_
    rcases hregs hx with ⟨rfl, rfl⟩ | ⟨hxn, hx⟩
    · exact .inr ⟨hc, rfl⟩
    · rw [hsubs, if_neg hxn] at hs
      exact .inl (h.connected x reg' c hx hc hs)
  · intro x reg' p hx hs
    refine (hwild p x).trans ?_
    rcases hregs hx with ⟨rfl, rfl⟩ | ⟨hxn, hx⟩
    · rw [and_iff_right rfl]
      exact or_iff_right (hnew p)
    · rw [hsubs, if_neg hxn] at hs
      rw [← h.wildcards x reg' p hx hs]
      exact or_iff_left fun hadded => hxn hadded.1
  · intro x reg' p hx hp
    rcases hregs hx with ⟨-, rfl⟩ | ⟨-, hx⟩
    · exact hparsed p hp
    · exact h.parsed x reg' p hx hp

theorem newRegistration_parsed {a : BrokerAction} {reg : Registration} {p : SubjectPattern}
    (h : newRegistration a = some reg) (hp : reg.interest = .pattern p) :
    SubjectPattern.parse p.raw = .ok p := by
  cases a with
  | subscribe clientId topic qos connId mode group =>
    cases h
    cases hp
  | subscribePattern clientId pattern qos connId mode =>
    cases hparse : SubjectPattern.parse pattern with
    | error e =>
      simp only [newRegistration, hparse] at h
      cases h
    | ok q =>
      simp only [newRegistration, hparse] at h
      cases h
      cases hp
      rw [(SubjectPattern.parse_eq_ok hparse).1]
      exact hparse
  | _ => cases h

theorem Sound.act (h : s.Sound) (a : BrokerAction) : (s.act E a).Sound := by
  rcases act_cases E h.consistent a with ⟨hd, hreg⟩ | ⟨reg, hnew, heq, hreg⟩
  · exact h.drops hd hreg
  · exact h.add (fun p => newRegistration_parsed hnew) heq hreg

/-- **The registries agree after every run.** -/
theorem Sound.run (h : s.Sound) (acts : List BrokerAction) : (s.run E acts).Sound := by
  induction acts generalizing s with
  | nil => exact h
  | cons a acts ih => exact ih (h.act a)

/-- Every registration takes one number. -/
theorem Sound.nextSubscriptionId_run (h : s.Sound) (acts : List BrokerAction) :
    (s.run E acts).broker.nextSubscriptionId ≤
      s.broker.nextSubscriptionId + (acts.filterMap newRegistration).length := by
  induction acts generalizing s with
  | nil => exact Nat.le_refl _
  | cons a acts ih =>
    have hrest : ((s.act E a).run E acts).broker.nextSubscriptionId ≤ _ := ih (h.act a)
    show ((s.act E a).run E acts).broker.nextSubscriptionId ≤ _
    rcases act_cases E h.consistent a with ⟨⟨ids, heq⟩, -⟩ | ⟨reg, hnew, heq, -⟩
    · have hnext : (s.act E a).broker.nextSubscriptionId = s.broker.nextSubscriptionId :=
        congrArg Registry.nextId heq
      have hle := ((List.sublist_cons_self a acts).filterMap newRegistration).length_le
      omega
    · have hnext : (s.act E a).broker.nextSubscriptionId = s.broker.nextSubscriptionId + 1 :=
        congrArg Registry.nextId heq
      rw [List.filterMap_cons_some hnew, List.length_cons]
      omega

/-- The counter of the source is a `u64` and wraps. With fewer than `2 ^ 64 - 1`
registrations it does not get that far, and is the one of the model. -/
theorem nextSubscriptionId_mod (E : Externals) (config : BrokerConfig) (hasWal : Bool)
    (acts : List BrokerAction) (h : (acts.filterMap newRegistration).length + 1 < 2 ^ 64) :
    ((new config hasWal).run E acts).broker.nextSubscriptionId % 2 ^ 64 =
      ((new config hasWal).run E acts).broker.nextSubscriptionId := by
  have hle := (Sound.new config hasWal).nextSubscriptionId_run (E := E) acts
  have hone : (new config hasWal).broker.nextSubscriptionId = 1 := rfl
  exact Nat.mod_eq_of_lt (by omega)

end Sound

end System

/-! ## Consistency and cleanup -/

namespace Broker

/-- Every id listed with some connection. -/
def connectedIds (b : Broker) : List Nat := b.connectionSubs.entries.flatMap Sigma.snd

variable {b : Broker}

theorem mem_connectedIds {x : Nat} : x ∈ b.connectedIds ↔ ∃ c, x ∈ b.registry.connections c := by
  rw [connectedIds, List.mem_flatMap]
  constructor
  · rintro ⟨⟨c, ids⟩, hmem, hx⟩
    refine ⟨c, ?_⟩
    have hl : b.connectionSubs.lookup c = some ids := AList.mem_lookup_iff.mpr hmem
    show x ∈ (b.connectionSubs.lookup c).getD []
    rw [hl]
    exact hx
  · rintro ⟨c, hx⟩
    change x ∈ (b.connectionSubs.lookup c).getD [] at hx
    cases hl : b.connectionSubs.lookup c with
    | none =>
      rw [hl] at hx
      cases hx
    | some ids =>
      rw [hl] at hx
      exact ⟨⟨c, ids⟩, AList.mem_lookup_iff.mp hl, hx⟩

theorem connectedIds_nodup (h : b.registry.Consistent) : b.connectedIds.Nodup := by
  have hlist : ∀ e ∈ b.connectionSubs.entries, b.registry.connections e.1 = e.2 := by
    intro e he
    have hl : b.connectionSubs.lookup e.1 = some e.2 := AList.mem_lookup_iff.mpr he
    show (b.connectionSubs.lookup e.1).getD [] = e.2
    rw [hl]
    rfl
  refine List.nodup_flatMap.mpr ⟨fun e he => hlist e he ▸ h.connections_nodup e.1, ?_⟩
  refine (List.nodupKeys_iff_pairwise.mp b.connectionSubs.nodupKeys).imp_of_mem ?_
  intro e e' he he' hne x hx hx'
  rw [← hlist e he] at hx
  rw [← hlist e' he'] at hx'
  exact hne (h.connections_disjoint e.1 e'.1 x hx hx')

/-- No structure mentions the subscription. -/
structure Unmentioned (b : Broker) (x : Nat) : Prop where
  subscriptions : x ∉ b.subscriptions
  members : ∀ t g, x ∉ b.members t g
  wildcards : x ∉ b.wildcardSubs.map Prod.snd
  connections : x ∉ b.connectedIds

theorem unmentioned_of_dead {x : Nat} (h : b.registry.Consistent)
    (hx : b.subscriptions.lookup x = none) : b.Unmentioned x where
  subscriptions := AList.lookup_eq_none.mp hx
  members t g hmem := by
    have hl : b.subscriptions.lookup x = some ⟨t, g⟩ := h.mem_members.mp hmem
    rw [hx] at hl
    cases hl
  wildcards hmem := by
    obtain ⟨p, hp, rfl⟩ := List.mem_map.mp hmem
    have hl : (b.subscriptions.lookup p.2).isSome := h.wildcards_live p hp
    rw [hx] at hl
    cases hl
  connections hmem := by
    obtain ⟨c, hc⟩ := mem_connectedIds.mp hmem
    have hl : (b.subscriptions.lookup x).isSome := h.connections_live c x hc
    rw [hx] at hl
    cases hl

/-- **The registries stay consistent**: in every state of every run each
subscription is in exactly the place its record names, once, and an id that is
not in the map is in no place; the wildcard and connection lists name live
subscriptions, none twice; the length kept beside the wildcard list is its
length; and once a connection is unsubscribed, nothing mentions what was ever
registered with it. -/
theorem registries_consistent (E : Externals) (config : BrokerConfig) (hasWal : Bool)
    (acts : List BrokerAction) :
    let s := (System.new config hasWal).run E acts
    let b := s.broker
    (∀ x t g, (b.members t g).count x =
      if b.subscriptions.lookup x = some ⟨t, g⟩ then 1 else 0) ∧
    ((b.wildcardSubs.map Prod.snd).Nodup ∧ ∀ p ∈ b.wildcardSubs, p.2 ∈ b.subscriptions) ∧
    (b.connectedIds.Nodup ∧ ∀ x ∈ b.connectedIds, x ∈ b.subscriptions) ∧
    b.wildcardSubsLen = b.wildcardSubs.length ∧
    ∀ c x reg, s.registrations.lookup x = some reg → reg.connId = some c →
      (b.unsubscribeConnection c).Unmentioned x := by
  intro s b
  have hsound : s.Sound := (System.Sound.new config hasWal).run acts
  have hcons := hsound.consistent
  refine ⟨hcons.placed, ⟨hcons.wildcards_nodup, fun p hp => ?_⟩,
    ⟨connectedIds_nodup hcons, fun x hx => ?_⟩, hcons.wildcardsLen, ?_⟩
  · exact AList.lookup_isSome.mp (hcons.wildcards_live p hp)
  · obtain ⟨c, hc⟩ := mem_connectedIds.mp hx
    exact AList.lookup_isSome.mp (hcons.connections_live c x hc)
  · intro c x reg hreg hc
    have hforget := registry_unsubscribeConnection hcons c
    refine unmentioned_of_dead (hforget ▸ hcons.forget _) ?_
    have hsubs : (b.unsubscribeConnection c).subscriptions.lookup x =
        if x ∈ b.registry.connections c then none else b.subscriptions.lookup x :=
      congrFun (congrArg Registry.subscriptions hforget) x
    rw [hsubs]
    split
    · rfl
    · rename_i hnot
      cases hl : b.subscriptions.lookup x with
      | none => rfl
      | some home => exact absurd (hsound.connected x reg c hreg hc (by rw [hl]; rfl)) hnot

end Broker

end BlipMQ.Core
