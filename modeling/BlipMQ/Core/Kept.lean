import BlipMQ.Core.Service

/-!
# Broker — what the calls keep

Besides `unsubscribe_connection` only the policy for slow consumers removes
subscriptions, at the end of a fan-out. It removes those that a push has just
found without room. The configuration and the log stay, and only
`begin_shutdown` begins the shutdown.
-/

namespace BlipMQ.Core

open Wal (WalRecord)

/-- `x` keeps its record and its place among the subscriptions of its connection. -/
structure Registry.Keeps (r r' : Registry) (x : Nat) : Prop where
  subscriptions : r'.subscriptions x = r.subscriptions x
  connections : ∀ c, x ∈ r.connections c → x ∈ r'.connections c

theorem Registry.keeps_forget {r : Registry} {ids : List Nat} {x : Nat} (hx : x ∉ ids) :
    r.Keeps (r.forget ids) x where
  subscriptions := if_neg hx
  connections _ hc := List.mem_filter.mpr ⟨hc, decide_eq_true hx⟩

theorem Registry.keeps_add {r : Registry} {home : SubscriptionRef} {connId : Option Nat}
    {wildcard : Option SubjectPattern} {x : Nat} (hx : x ≠ r.nextId) :
    r.Keeps (r.add home connId wildcard) x where
  subscriptions := if_neg hx
  connections c hc := by
    show x ∈ if connId = some c then r.connections c ++ [r.nextId] else r.connections c
    split
    · exact List.mem_append_left _ hc
    · exact hc

namespace Broker

variable {E : Externals} {b b' b'' : Broker} {svcs svcs' : List (Nat × Service)}

/-! ## Who is removed -/

/-- Subscriptions are forgotten, each after a push to it that was not sent. -/
def DropsSlow (b b' : Broker) (svcs : List (Nat × Service)) : Prop :=
  ∃ ids, b'.registry = b.registry.forget ids ∧
    ∀ x ∈ ids, ∃ now o ttl, (x, Service.push now o ttl false) ∈ svcs

namespace DropsSlow

theorem of_eq (h : b.registry.Consistent) (heq : b'.registry = b.registry)
    (svcs : List (Nat × Service)) : DropsSlow b b' svcs :=
  ⟨[], by rw [heq, h.forget_dead (List.forall_mem_nil _)], List.forall_mem_nil _⟩

theorem drops (h : DropsSlow b b' svcs) : Drops b b' := by
  obtain ⟨ids, hids, -⟩ := h
  exact ⟨ids, hids⟩

theorem trans (h : DropsSlow b b' svcs) (h' : DropsSlow b' b'' svcs') :
    DropsSlow b b'' (svcs ++ svcs') := by
  obtain ⟨ids, hids, hslow⟩ := h
  obtain ⟨ids', hids', hslow'⟩ := h'
  refine ⟨ids ++ ids', by rw [hids', hids, Registry.forget_forget], fun x hx => ?_⟩
  rcases List.mem_append.mp hx with hx | hx
  · obtain ⟨now, o, ttl, hmem⟩ := hslow x hx
    exact ⟨now, o, ttl, List.mem_append_left _ hmem⟩
  · obtain ⟨now, o, ttl, hmem⟩ := hslow' x hx
    exact ⟨now, o, ttl, List.mem_append_right _ hmem⟩

theorem fold {α : Type*} {f : Broker → α → Broker} {out : Broker → α → List (Nat × Service)}
    (hf : ∀ b a, b.registry.Consistent → DropsSlow b (f b a) (out b a))
    (h : b.registry.Consistent) (as : List α) :
    DropsSlow b (as.foldl f b) (emitted f out b as) := by
  induction as generalizing b with
  | nil => exact of_eq h rfl _
  | cons a as ih =>
    have hhead := hf b a h
    exact hhead.trans (ih (hhead.drops.consistent h))

/-- Whose pushes were all sent keeps its record and its place. -/
theorem keeps (h : DropsSlow b b' svcs) {x : Nat}
    (hsent : ∀ now o ttl sent, (x, Service.push now o ttl sent) ∈ svcs → sent = true) :
    b.registry.Keeps b'.registry x := by
  obtain ⟨ids, hids, hslow⟩ := h
  rw [hids]
  refine Registry.keeps_forget fun hmem => ?_
  obtain ⟨now, o, ttl, hpush⟩ := hslow x hmem
  cases hsent now o ttl false hpush

end DropsSlow

/-! ## The fan-out -/

variable {ttl : Option Nat} {a : BrokerAction} {now : Nat}

theorem deliver_dropped {o : Offer} {x : Nat} (h : (b.deliver E now o ttl x).2 = true) :
    (x, Service.push now o ttl false) ∈ b.deliverServices now o ttl x := by
  cases hx : b.subscribers.lookup x with
  | none =>
    rw [deliver_absent hx] at h
    cases h
  | some sub =>
    by_cases hmode : sub.mode = .poll
    · rw [deliver_poll hx hmode] at h
      cases h
    · rw [deliver_push hx hmode] at h
      rw [deliverServices_push hx hmode]
      cases hroom : b.hasRoom sub.mode with
      | true =>
        rw [hroom] at h
        cases h
      | false => exact List.mem_singleton_self _

theorem fanOut_dropped {o : Offer} {ids : List Nat} {x : Nat}
    (h : x ∈ (b.fanOut E now o ttl ids).2) :
    (x, Service.push now o ttl false) ∈ emitted (fun b x => (b.deliver E now o ttl x).1)
      (fun b x => b.deliverServices now o ttl x) b ids := by
  induction ids generalizing b with
  | nil => exact absurd h List.not_mem_nil
  | cons y ids ih =>
    simp only [fanOut] at h
    refine List.mem_append.mpr ?_
    split at h
    · rename_i hdropped
      rcases List.mem_cons.mp h with rfl | h
      · exact .inl (deliver_dropped hdropped)
      · exact .inr (ih h)
    · exact .inr (ih h)

theorem publishInner_dropsSlow (h : b.registry.Consistent) (now : Nat)
    (pre : Option ResolvedTopic) (o : Offer) (ttl : Option Nat) (key : Option Bytes) :
    DropsSlow b (b.publishInner E now pre o ttl key) (b.publishServices E now pre o ttl key) := by
  obtain ⟨ids, hids, hslow⟩ := registry_publishInner (E := E) h now pre o ttl key
  refine ⟨ids, hids, fun x hx => ?_⟩
  obtain ⟨hrunning, hdropped⟩ := hslow x hx
  rw [publishServices, hrunning]
  exact ⟨now, o, _, fanOut_dropped hdropped⟩

theorem maintenanceTick_dropsSlow (h : b.registry.Consistent) (now clock : Nat) :
    DropsSlow b (b.maintenanceTick E now clock) (b.tickServices E now clock) := by
  have hwalk := DropsSlow.of_eq h (registry_tickQueues now)
    (emitted (tickOne now) (fun s e => tickOneServices now s.1 e) (b, []) b.subscriptions.entries)
  exact hwalk.trans (.fold (fun b letter hb => publishInner_dropsSlow hb ..)
    (hwalk.drops.consistent h) _)

/-- **A call removes slow consumers only**, unless it is that of a connection's end. -/
theorem act_dropsSlow (h : b.registry.Consistent) (hnew : b.newSubscriber a = none)
    (ha : ∀ c, a ≠ .unsubscribeConnection c) : DropsSlow b (b.act E a) (b.services E a) := by
  cases a with
  | subscribe clientId topic qos connId mode group => cases hnew
  | subscribePattern clientId pattern qos connId mode =>
    exact .of_eq h (congrArg registry (act_rejected hnew)) _
  | unsubscribeConnection c => exact absurd rfl (ha c)
  | publish now pre o ttl key => exact publishInner_dropsSlow h now pre o ttl key
  | poll now x => exact .of_eq h (registry_poll now x) _
  | ack x tag => exact .of_eq h (registry_ack x tag) _
  | maintenanceTick now clock => exact maintenanceTick_dropsSlow h now clock
  | replayFromWal now log checkpoint =>
    exact .of_eq h (registry_replayFromWal now log checkpoint) _
  | replayToSubscriber now log x fromOffset =>
    refine .of_eq h ?_ _
    simp only [act, replayToSubscriber]
    split
    · rfl
    · exact registry_foldl (fun b r => registry_replayTo now _ x r) _ _
  | buffers slots channels => exact .of_eq h rfl _
  | beginShutdown => exact .of_eq h rfl _

theorem act_consistent (h : b.registry.Consistent) (a : BrokerAction) :
    (b.act E a).registry.Consistent := by
  rcases System.act_cases E (s := ⟨b, ∅⟩) h a with ⟨hdrops, -⟩ | ⟨reg, -, hadd, -⟩
  · exact hdrops.consistent h
  · exact hadd ▸ h.add ..

/-! ## What stands -/

/-- What a broker was made with, and whether it is shutting down. -/
def standing (b : Broker) : BrokerConfig × Bool × Bool := (b.config, b.hasWal, b.shuttingDown)

theorem Served.standing {os : Nat → List Offer} (h : Served now ttl b b' os) :
    b'.standing = b.standing := by
  obtain ⟨_, _, _, rfl⟩ := h.frame
  rfl

theorem foldl_standing {α : Type*} {f : Broker → α → Broker}
    (hf : ∀ b a, (f b a).standing = b.standing) (b : Broker) (as : List α) :
    (as.foldl f b).standing = b.standing := by
  induction as generalizing b with
  | nil => rfl
  | cons a as ih => rw [List.foldl_cons, ih, hf]

theorem unsubscribeOne_standing (b : Broker) (x : Nat) :
    (b.unsubscribeOne x).standing = b.standing := by
  unfold unsubscribeOne
  split <;> rfl

theorem startPublish_standing (E : Externals) (b : Broker) (record : Option String)
    (walId : Option Nat) (key : Option Bytes) :
    (b.startPublish E record walId key).standing = b.standing := by
  cases record <;> rfl

theorem endPublish_standing (b : Broker) (record : Option String) (delivered dropped : Nat) :
    (b.endPublish record delivered dropped).standing = b.standing := by
  cases record <;> rfl

theorem publishInner_standing (b : Broker) (now : Nat) (pre : Option ResolvedTopic)
    (o : Offer) (ttl : Option Nat) (key : Option Bytes) :
    (b.publishInner E now pre o ttl key).standing = b.standing := by
  rcases publishInner_cases E b now pre o ttl key with
    ⟨-, heq⟩ | ⟨-, b₁, _, _, _, evicted, -, hserved, heq, -⟩
  · rw [heq]
  · rw [heq, foldl_standing unsubscribeOne_standing, endPublish_standing, hserved.standing,
      startPublish_standing]

theorem maintenanceTick_standing (b : Broker) (now clock : Nat) :
    (b.maintenanceTick E now clock).standing = b.standing :=
  maintenanceTick_invariant (P := fun b' => b'.standing = b.standing) rfl now clock
    (fun _ _ _ h _ => h) fun _ _ h => (publishInner_standing ..).trans h

theorem replayTo_standing (now : Nat) (topic : String) (x : Nat) (b : Broker)
    (r : WalRecord) : (replayTo E now topic x b r).standing = b.standing := by
  unfold replayTo
  split
  · split
    · exact (deliver_served ..).standing
    · rfl
  · rfl

theorem unsubscribeConnection_standing (b : Broker) (c : Nat) :
    (b.unsubscribeConnection c).standing = b.standing := by
  have hfold : ∀ (b : Broker) (removed : List (Nat × SubscriptionRef)),
      (removed.foldl (fun b p => removeFromTopic b p.1 p.2) b).standing = b.standing :=
    foldl_standing fun _ _ => rfl
  unfold unsubscribeConnection
  dsimp only
  split
  · exact hfold _ _
  · exact hfold _ _

theorem act_standing (ha : a ≠ .beginShutdown) : (b.act E a).standing = b.standing := by
  cases a with
  | subscribe clientId topic qos connId mode group => rfl
  | subscribePattern clientId pattern qos connId mode =>
    simp only [act]
    split
    · rfl
    · unfold subscribePatternInner
      split <;> rfl
  | unsubscribeConnection c => exact unsubscribeConnection_standing b c
  | publish now pre o ttl key => exact publishInner_standing b now pre o ttl key
  | poll now x =>
    simp only [act, poll]
    split <;> rfl
  | ack x tag =>
    simp only [act, ack]
    split
    · split <;> rfl
    · rfl
  | maintenanceTick now clock => exact maintenanceTick_standing b now clock
  | replayFromWal now log checkpoint =>
    obtain ⟨b₁, hserved, heq⟩ := replay_served E now log b checkpoint
    simp only [act, heq]
    exact hserved.standing
  | replayToSubscriber now log x fromOffset =>
    simp only [act, replayToSubscriber]
    split
    · rfl
    · exact foldl_standing (fun b r => replayTo_standing now _ x b r) _ _
  | buffers slots channels => rfl
  | beginShutdown => exact absurd rfl ha

theorem act_shuttingDown (ha : a ≠ .beginShutdown) : (b.act E a).shuttingDown = b.shuttingDown :=
  congrArg (fun s => s.2.2) (act_standing ha)

theorem act_config (a : BrokerAction) : (b.act E a).config = b.config := by
  by_cases ha : a = .beginShutdown
  · subst ha
    rfl
  · exact congrArg Prod.fst (act_standing ha)

theorem act_hasWal (a : BrokerAction) : (b.act E a).hasWal = b.hasWal := by
  by_cases ha : a = .beginShutdown
  · subst ha
    rfl
  · exact congrArg (fun s => s.2.1) (act_standing ha)

end Broker

theorem System.hasWal_run (E : Externals) (config : BrokerConfig) (hasWal : Bool)
    (acts : List BrokerAction) :
    ((System.new config hasWal).run E acts).broker.hasWal = hasWal := by
  rw [System.broker_run]
  exact List.foldlRecOn (motive := fun b : Broker => b.hasWal = hasWal) acts _ rfl
    fun b hb a _ => (Broker.act_hasWal a).trans hb

end BlipMQ.Core
