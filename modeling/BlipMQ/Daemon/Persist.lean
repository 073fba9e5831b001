import BlipMQ.Core.CheckpointFile
import BlipMQ.Daemon.Session
import BlipMQ.Net.Handler
import BlipMQ.Net.Payloads

/-!
# Daemon — what acks leave behind can be written down

The names in a cursor come from a SUBSCRIBE frame: the topic, and either the
client id that is made from the number of the connection or the name of the
group. A frame gives the lengths of its names in two bytes, and so do the
entry of an ack and the checkpoint. But the broker writes `group:` in front
of the name of a group, and the longest names do not leave room for it.
-/

namespace BlipMQ.Daemon

open BlipMQ.Core

/-! ## Frames and steps -/

/-- What happens to the process: a SUBSCRIBE frame comes in on a connection, or
it takes a step of another kind. -/
inductive Event where
  | subscribe (now : Nat) (connId : UInt64) (frame : Net.Frame) (slot : Nat)
  | step (a : Action)

/-- All subscriptions come with frames. -/
def receive (E : Externals) (s : State) : Event → Option State
  | .subscribe now connId frame slot => some { s with
      broker :=
        (Net.handleSubscribeSlot E now s.log s.broker connId.toNat frame slot).1 }
  | .step a => if a.subscribes then none else step E s a

/-- With `group:` in front the name is still not longer than 65535 bytes. -/
def ShortGroup (g : String) : Prop := (utf8 g).length + 6 < 2 ^ 16

/-- The frame, if it can be decoded, names no group without `P`. -/
def Event.NamesGroup (P : String → Prop) : Event → Prop
  | .subscribe _ _ frame _ => ∀ payload g,
      Net.SubscribePayload.decode frame.payload = .ok payload → payload.group = some g → P g
  | .step _ => True

theorem shortGroup_iff (g : String) : (utf8 ("group:" ++ g)).length < 2 ^ 16 ↔ ShortGroup g := by
  have hsix : (utf8 "group:").length = 6 := by decide
  rw [utf8_append, List.length_append, hsix, ShortGroup, Nat.add_comm]

/-! ## The names the broker knows -/

/-- Every name fits behind two bytes, except perhaps those of groups with their
prefix. All groups have `P`. -/
structure Named (P : String → Prop) (b : Broker) : Prop where
  clients : ∀ x l, b.ledger? x = some l → (utf8 l.clientId).length < 2 ^ 16
  topics : ∀ x subRef, b.subscriptions.lookup x = some subRef →
    (utf8 subRef.topic).length < 2 ^ 16
  groups : ∀ x subRef g, b.subscriptions.lookup x = some subRef → subRef.group = some g → P g
  cursors : ∀ key v, b.ackCursors.lookup key = some v → (utf8 key.2).length < 2 ^ 16 ∧
    ((utf8 key.1).length < 2 ^ 16 ∨ ∃ g, P g ∧ key.1 = "group:" ++ g)

section Named

variable {E : Externals} {P : String → Prop} {b b' : Broker}

theorem Named.start (P : String → Prop) (E : Externals) (config : BrokerConfig) :
    Named P (start E config).broker where
  clients _ _ h := by cases h
  topics _ _ h := by cases h
  groups _ _ _ h := by cases h
  cursors _ _ h := by cases h

/-- Changes that add no subscription and raise no cursor. -/
theorem Named.keep (h : Named P b)
    (hledger : ∀ x l, b'.ledger? x = some l →
      ∃ l₀, b.ledger? x = some l₀ ∧ l₀.clientId = l.clientId)
    (hsubs : ∀ x subRef, b'.subscriptions.lookup x = some subRef →
      b.subscriptions.lookup x = some subRef)
    (hcursors : b'.ackCursors = b.ackCursors) : Named P b' where
  clients x l hl := by
    obtain ⟨l₀, hl₀, hclient⟩ := hledger x l hl
    rw [← hclient]
    exact h.clients x l₀ hl₀
  topics x subRef hx := h.topics x subRef (hsubs x subRef hx)
  groups x subRef g hx := h.groups x subRef g (hsubs x subRef hx)
  cursors key v hv := by
    rw [hcursors] at hv
    exact h.cursors key v hv

theorem Named.quiet (h : Named P b) (hquiet : b.Quiet b') : Named P b' := by
  refine h.keep ?_ hquiet.subscriptions hquiet.ackCursors
  intro x l hl
  rw [hquiet.ledger] at hl
  exact ⟨l, hl, rfl⟩

theorem Named.publishes (h : Named P b) {o : Offer} {ids : List Nat}
    (hpublishes : b.Publishes b' o ids) : Named P b' := by
  refine h.keep ?_ hpublishes.subscriptions hpublishes.ackCursors
  intro x l hl
  rw [hpublishes.ledger] at hl
  obtain ⟨l₀, hl₀, rfl⟩ := Option.map_eq_some_iff.mp hl
  exact ⟨l₀, hl₀, rfl⟩

theorem Named.served (h : Named P b) {now : Nat} {ttl : Option Nat} {os : Nat → List Offer}
    (hserved : Broker.Served now ttl b b' os) : Named P b' := by
  refine h.keep ?_ ?_ hserved.ackCursors
  · intro x l hl
    rw [hserved.ledger] at hl
    obtain ⟨l₀, hl₀, rfl⟩ := Option.map_eq_some_iff.mp hl
    exact ⟨l₀, hl₀, rfl⟩
  · intro x subRef hx
    rw [hserved.subscriptions] at hx
    exact hx

/-- A new subscription brings its names in. -/
theorem Named.subscribes (h : Named P b) {l : Ledger} (hsubscribes : b.Subscribes b' l)
    (hclient : (utf8 l.clientId).length < 2 ^ 16) (htopic : (utf8 l.home.topic).length < 2 ^ 16)
    (hgroup : ∀ g, l.home.group = some g → P g) : Named P b' where
  clients x l' hl' := by
    rw [hsubscribes.ledger] at hl'
    by_cases hx : x = b.nextSubscriptionId
    · rw [if_pos hx] at hl'
      cases hl'
      exact hclient
    · rw [if_neg hx] at hl'
      exact h.clients x l' hl'
  topics x subRef hsub := by
    rw [hsubscribes.subscriptions] at hsub
    by_cases hx : x = b.nextSubscriptionId
    · rw [if_pos hx] at hsub
      cases hsub
      exact htopic
    · rw [if_neg hx] at hsub
      exact h.topics x subRef hsub
  groups x subRef g hsub hg := by
    rw [hsubscribes.subscriptions] at hsub
    by_cases hx : x = b.nextSubscriptionId
    · rw [if_pos hx] at hsub
      cases hsub
      exact hgroup g hg
    · rw [if_neg hx] at hsub
      exact h.groups x subRef g hsub hg
  cursors key v hv := by
    rw [hsubscribes.ackCursors] at hv
    exact h.cursors key v hv

/-- The entry of an ack names the topic and the consumer. -/
theorem Named.entry (h : Named P b) {x tag : Nat} {a : WalAckRecord} (hacks : b.Acks b' x tag a) :
    (utf8 a.topic).length < 2 ^ 16 ∧
      ∃ subRef, b.subscriptions.lookup x = some subRef ∧
        ((subRef.group = none ∧ (utf8 a.clientId).length < 2 ^ 16) ∨
          ∃ g, P g ∧ subRef.group = some g ∧ a.clientId = "group:" ++ g) := by
  obtain ⟨subRef, sub, e, hsub, hsubscriber, -, -, hclient, htopic⟩ := hacks.source
  refine ⟨?_, subRef, hsub, ?_⟩
  · rw [htopic]
    exact h.topics x subRef hsub
  cases hgroup : subRef.group with
  | none =>
    have hledger : b.ledger? x = some sub.ledger := by rw [Broker.ledger?, hsubscriber]; rfl
    rw [hgroup] at hclient
    rw [hclient]
    exact .inl ⟨rfl, h.clients x sub.ledger hledger⟩
  | some g =>
    rw [hgroup] at hclient
    exact .inr ⟨g, h.groups x subRef g hsub hgroup, rfl, hclient⟩

theorem Named.acks (h : Named P b) {x tag : Nat} {a : WalAckRecord} (hacks : b.Acks b' x tag a) :
    Named P b' where
  clients y l hl := by
    rw [hacks.ledger] at hl
    obtain ⟨l₀, hl₀, rfl⟩ := Option.map_eq_some_iff.mp hl
    by_cases hy : y = x
    · rw [if_pos hy]
      exact h.clients y l₀ hl₀
    · rw [if_neg hy]
      exact h.clients y l₀ hl₀
  topics y subRef hy := by
    rw [hacks.subscriptions] at hy
    exact h.topics y subRef hy
  groups y subRef g hy := by
    rw [hacks.subscriptions] at hy
    exact h.groups y subRef g hy
  cursors key v hv := by
    rw [hacks.ackCursors] at hv
    rcases MaxMap.lookup_raise_cases hv with hold | hnew
    · exact h.cursors key v hold
    · obtain ⟨rfl, rfl⟩ := Prod.mk.inj hnew
      obtain ⟨htopic, subRef, -, ⟨-, hclient⟩ | ⟨g, hg, -, hclient⟩⟩ := h.entry hacks
      · exact ⟨htopic, .inl hclient⟩
      · exact ⟨htopic, .inr ⟨g, hg, hclient⟩⟩

theorem Named.replayTo (h : Named P b) (now : Nat) (topic : String) (x : Nat)
    (r : Wal.WalRecord) : Named P (Broker.replayTo E now topic x b r) := by
  unfold Broker.replayTo
  split
  · split
    · exact h.served (Broker.deliver_served ..)
    · exact h
  · exact h

theorem Named.replayToSubscriber (h : Named P b) (now : Nat) (log : Log) (x fromOffset : Nat) :
    Named P (b.replayToSubscriber E now log x fromOffset) := by
  unfold Broker.replayToSubscriber
  cases b.subscriptions.lookup x with
  | none => exact h
  | some subRef =>
    exact List.foldlRecOn (motive := Named P) _ _ h fun _ hb r _ => hb.replayTo now _ x r

/-! ## Runs -/

variable {s s' : State}

theorem Named.step (h : Named P s.broker) {a : Action} (ha : a.subscribes = false)
    (hs : Daemon.step E s a = some s') : Named P s'.broker := by
  cases step_effect hs with
  | quiet hq _ => exact h.quiet hq
  | subscribed hsub _ =>
    rw [ha] at hsub
    cases hsub
  | fannedOut _ hpub => exact h.publishes hpub
  | acked hack _ => exact h.acks hack
  | skipped | refused | appended | journaled | compacted => exact h

/-- A SUBSCRIBE frame brings in names that its handler has checked. -/
theorem Named.handleSubscribeSlot (h : Named P b) (now : Nat) (log : Log) (connId : UInt64)
    (frame : Net.Frame) (slot : Nat)
    (hgroup : ∀ payload g, Net.SubscribePayload.decode frame.payload = .ok payload →
      payload.group = some g → P g) :
    Named P (Net.handleSubscribeSlot E now log b connId.toNat frame slot).1 := by
  rcases Net.handleSubscribeSlot_cases E now log b connId.toNat frame slot with
    hsame | ⟨payload, qos, hdecode, hcheck, hregistered⟩
  · rw [hsame]
    exact h
  have htopic := Net.length_of_validateTopic (Net.validateTopic_of_checkSubscribe hcheck)
  have hnamed : Named P (b.subscribeInnerGrouped (Net.clientIdOf connId.toNat) payload.topic qos
      (some connId.toNat) (.slot slot) payload.group).1 :=
    h.subscribes (Broker.subscribeInnerGrouped_spec ..)
      (Net.length_clientIdOf connId.toNat_lt) htopic fun g => hgroup payload g hdecode
  rcases hregistered with hplain | ⟨offset, hreplayed⟩
  · rw [hplain]
    exact hnamed
  · rw [hreplayed]
    exact hnamed.replayToSubscriber now log _ offset

theorem Named.receive (h : Named P s.broker) {e : Event} (he : e.NamesGroup P)
    (hs : Daemon.receive E s e = some s') : Named P s'.broker := by
  cases e with
  | subscribe now connId frame slot =>
    cases hs
    exact h.handleSubscribeSlot now s.log connId frame slot he
  | step a =>
    unfold Daemon.receive at hs
    dsimp only at hs
    by_cases ha : a.subscribes = true
    · rw [if_pos ha] at hs
      cases hs
    · rw [if_neg ha] at hs
      exact h.step (Bool.eq_false_iff.mpr ha) hs

theorem Named.run (h : Named P s.broker) {events : List Event}
    (hevents : ∀ e ∈ events, e.NamesGroup P)
    (hrun : BlipMQ.run (Daemon.receive E) s events = some s') : Named P s'.broker := by
  induction events generalizing s with
  | nil =>
    cases hrun
    exact h
  | cons e events ih =>
    obtain ⟨t, ht, hrest⟩ := run_cons.mp hrun
    obtain ⟨he, hlater⟩ := List.forall_mem_cons.mp hevents
    exact ih (h.receive he ht) hlater hrest

end Named

/-! ## Checkpoints and entries -/

variable {E : Externals} {P : String → Prop} {b : Broker}

/-- The names of groups are all that can keep a checkpoint from being written,
besides the number of cursors. -/
theorem Named.encode_ok_iff (h : Named P b) :
    (∃ bytes, b.currentSnapshot.encode E = .ok bytes) ↔
      b.ackCursors.entries.length < 2 ^ 32 ∧
        ∀ g topic v, b.ackCursors.lookup ("group:" ++ g, topic) = some v → ShortGroup g := by
  rw [CheckpointSnapshot.encode_ok_iff]
  constructor
  · rintro ⟨hcount, hnames⟩
    refine ⟨hcount, fun g topic v hv => ?_⟩
    exact (shortGroup_iff g).mp (hnames ("group:" ++ g, topic) v hv).1
  · rintro ⟨hcount, hshort⟩
    refine ⟨hcount, fun key v hv => ?_⟩
    obtain ⟨htopic, hclient | ⟨g, -, hgroup⟩⟩ := h.cursors key v hv
    · exact ⟨hclient, htopic⟩
    · obtain ⟨client, topic⟩ := key
      subst hgroup
      exact ⟨(shortGroup_iff g).mpr (hshort g topic v hv), htopic⟩

theorem Named.encode_entry_iff (h : Named P b) {x tag : Nat} {b' : Broker} {a : WalAckRecord}
    (hack : b.ack x tag = some (b', some a)) :
    (∃ payload, (WalEntry.ack a).encode = .ok payload) ↔
      ∀ subRef g, b.subscriptions.lookup x = some subRef → subRef.group = some g →
        ShortGroup g := by
  obtain ⟨htopic, subRef, hsub, hclient⟩ := h.entry (Broker.ack_spec hack)
  rw [WalEntry.encode_ok_iff]
  show (utf8 a.clientId).length < 2 ^ 16 ∧ (utf8 a.topic).length < 2 ^ 16 ↔ _
  rw [and_iff_left htopic]
  rcases hclient with ⟨hnone, hclient⟩ | ⟨g, -, hgroup, hclient⟩
  · refine iff_of_true hclient fun subRef' g hsub' hgroup => ?_
    cases hsub.symm.trans hsub'
    cases hnone.symm.trans hgroup
  · rw [hclient, shortGroup_iff]
    constructor
    · intro hshort subRef' g' hsub' hgroup'
      cases hsub.symm.trans hsub'
      cases hgroup.symm.trans hgroup'
      exact hshort
    · intro hshort
      exact hshort subRef g hsub hgroup

/-- **When what acks leave behind can be written down.** In every state that SUBSCRIBE
frames, durable publishes, acks and whatever else the process does can lead to, a
checkpoint can be written exactly if there are fewer than `2 ^ 32` cursors and no
group of too long a name has acked a logged message; and the entry of an ack
exactly if it does not come from such a group. If no frame names one, both can
be written. -/
theorem acked_state_encodes_iff {config : BrokerConfig} {events : List Event} {s : State}
    (hrun : run (receive E) (start E config) events = some s) :
    ((∃ bytes, s.broker.currentSnapshot.encode E = .ok bytes) ↔
      s.broker.ackCursors.entries.length < 2 ^ 32 ∧
        ∀ g topic v, s.broker.ackCursors.lookup ("group:" ++ g, topic) = some v →
          ShortGroup g) ∧
    (∀ x tag broker a, s.broker.ack x tag = some (broker, some a) →
      ((∃ payload, (WalEntry.ack a).encode = .ok payload) ↔
        ∀ subRef g, s.broker.subscriptions.lookup x = some subRef → subRef.group = some g →
          ShortGroup g)) ∧
    ((∀ e ∈ events, e.NamesGroup ShortGroup) →
      (s.broker.ackCursors.entries.length < 2 ^ 32 →
        ∃ bytes, s.broker.currentSnapshot.encode E = .ok bytes) ∧
      ∀ x tag broker a, s.broker.ack x tag = some (broker, some a) →
        ∃ payload, (WalEntry.ack a).encode = .ok payload) := by
  have hany : ∀ e ∈ events, e.NamesGroup fun _ => True := by
    intro e _
    cases e with
    | subscribe now connId frame slot => exact fun _ _ _ _ => trivial
    | step a => trivial
  have hnamed := (Named.start (fun _ => True) E config).run hany hrun
  refine ⟨hnamed.encode_ok_iff, fun x tag broker a => hnamed.encode_entry_iff, fun hshort => ?_⟩
  have hnamed' := (Named.start ShortGroup E config).run hshort hrun
  refine ⟨fun hcount => ?_, fun x tag broker a hack => ?_⟩
  · refine CheckpointSnapshot.encode_ok_iff.mpr ⟨hcount, fun key v hv => ?_⟩
    obtain ⟨htopic, hclient | ⟨g, hg, hgroup⟩⟩ := hnamed'.cursors key v hv
    · exact ⟨hclient, htopic⟩
    · rw [hgroup, shortGroup_iff]
      exact ⟨hg, htopic⟩
  · refine (hnamed'.encode_entry_iff hack).mpr fun subRef g hsub hgroup => ?_
    exact hnamed'.groups x subRef g hsub hgroup

/-! ### A group whose name is as long as a frame can carry -/

/-- A SUBSCRIBE to topic `t` in group `g`, with QoS 1. -/
def groupSubscribe (g : String) : Net.Frame :=
  ⟨.subscribe, 1, Net.SubscribePayload.bytes ⟨"t", 1, some g, none⟩ 0x81⟩

/-- A new process with one member of group `g`. -/
def oneMember (g : String) : State :=
  { start plainExternals .default with
    broker := ((start plainExternals .default).broker.subscribeInnerGrouped "conn-1" "t"
      .atLeastOnce (some 1) (.slot 1) (some g)).1 }

/-- The member joins and is pushed the message of a durable publish. -/
def deliveredInGroup (g : String) : List Event :=
  [.subscribe 0 1 (groupSubscribe g) 1, .step (.append ⟨"t", .atLeastOnce, [7]⟩ false),
    .step (.fanOut 0 0)]

theorem decode_groupSubscribe {g : String} (hlen : (utf8 g).length < 2 ^ 16) :
    Net.SubscribePayload.decode (groupSubscribe g).payload = .ok ⟨"t", 1, some g, none⟩ := by
  refine Net.SubscribePayload.decode_iff.mpr ⟨?_, ⟨?_, ?_⟩, 0x81, [], ⟨?_, ?_, ?_⟩, ?_⟩
  · intro offset hoffset
    cases hoffset
  · show (utf8 "t").length < 2 ^ 16
    decide
  · intro group hgroup
    cases hgroup
    exact hlen
  · rfl
  · exact iff_of_true (by decide) rfl
  · exact iff_of_false (by decide) Bool.false_ne_true
  · rw [List.append_nil]
    rfl

theorem run_deliveredInGroup {g : String} (hg : g ≠ "") (hlen : (utf8 g).length < 2 ^ 16) :
    ∃ s, run (receive plainExternals) (start plainExternals .default) (deliveredInGroup g) =
        some s ∧
      ∃ broker, s.broker.ack 1 1 = some (broker, some ⟨"group:" ++ g, "t", 1⟩) ∧
        broker.ackCursors = (∅ : MaxMap (String × String)).raise ("group:" ++ g, "t") 1 := by
  have hcheck : Net.checkSubscribe ⟨"t", 1, some g, none⟩ = .ok .atLeastOnce := by
    have hvalid : Net.validateTopic "t" = none := by decide +kernel
    have hqos : Net.qosFromU8 (Net.SubscribePayload.qosLevel ⟨"t", 1, some g, none⟩) =
        some .atLeastOnce := by
      show Net.qosFromU8 (1 &&& Net.SubscribePayload.qosMask) = _
      decide
    simp only [Net.checkSubscribe, hvalid, hqos, if_neg hg]
  have hjoin : receive plainExternals (start plainExternals .default)
      (.subscribe 0 1 (groupSubscribe g) 1) = some (oneMember g) := by
    unfold receive Net.handleSubscribeSlot
    simp only [decode_groupSubscribe hlen, hcheck]
    rfl
  have hdelivered : ∃ s, run (receive plainExternals) (oneMember g)
      (deliveredInGroup g).tail = some s ∧
      ∃ broker, s.broker.ack 1 1 = some (broker, some ⟨"group:" ++ g, "t", 1⟩) ∧
        broker.ackCursors = (∅ : MaxMap (String × String)).raise ("group:" ++ g, "t") 1 :=
    ⟨_, rfl, _, rfl, rfl⟩
  obtain ⟨s, hrest, hack⟩ := hdelivered
  exact ⟨s, run_cons.mpr ⟨oneMember g, hjoin, hrest⟩, hack⟩

/-- An ack from a group with a short name can be journaled. -/
theorem acked_state_encodes_iff_short_group :
    ∃ s, run (receive plainExternals) (start plainExternals .default) (deliveredInGroup "g") =
        some s ∧
      ∃ broker a payload, s.broker.ack 1 1 = some (broker, some a) ∧
        (WalEntry.ack a).encode = .ok payload := by
  have hlen : (utf8 "g").length < 2 ^ 16 := by decide
  obtain ⟨s, hrun, broker, hack, -⟩ := run_deliveredInGroup (by decide) hlen
  have hshort : ∀ e ∈ deliveredInGroup "g", e.NamesGroup ShortGroup := by
    refine List.forall_mem_cons.mpr ⟨?_, List.forall_mem_cons.mpr ⟨trivial,
      List.forall_mem_singleton.mpr trivial⟩⟩
    intro payload g hdecode hgroup
    cases (decode_groupSubscribe hlen).symm.trans hdecode
    cases hgroup
    unfold ShortGroup
    decide
  obtain ⟨payload, hpayload⟩ := ((acked_state_encodes_iff hrun).2.2 hshort).2 1 1 broker _ hack
  exact ⟨s, hrun, broker, _, payload, hack, hpayload⟩

theorem length_utf8_replicate (n : Nat) :
    (utf8 (String.ofList (List.replicate n 'g'))).length = n := by
  have hone : String.utf8EncodeChar 'g' = [103] := by decide
  rw [utf8_ofList]
  induction n with
  | zero => rfl
  | succ n ih =>
    rw [List.replicate_succ, List.flatMap_cons, hone, List.length_append, ih, List.length_singleton,
      Nat.add_comm]

/-- A member of a group with a name of 65530 bytes has acked a message: neither the
entry of the ack nor, from then on, any checkpoint can be written. -/
theorem long_group_stops_checkpoints :
    let g := String.ofList (List.replicate 65530 'g')
    ∃ s, run (receive plainExternals) (start plainExternals .default) (deliveredInGroup g) =
        some s ∧
      ∃ broker, s.broker.ack 1 1 = some (broker, some ⟨"group:" ++ g, "t", 1⟩) ∧
        (¬ ∃ payload, (WalEntry.ack ⟨"group:" ++ g, "t", 1⟩).encode = .ok payload) ∧
        ¬ ∃ bytes, broker.currentSnapshot.encode plainExternals = .ok bytes := by
  intro g
  have hlen : (utf8 g).length = 65530 := length_utf8_replicate 65530
  have hlong : ¬ (utf8 ("group:" ++ g)).length < 2 ^ 16 := by
    rw [shortGroup_iff, ShortGroup, hlen]
    decide
  have hne : g ≠ "" := by
    intro hempty
    rw [hempty] at hlen
    exact absurd hlen (by decide)
  obtain ⟨s, hrun, broker, hack, hcursors⟩ := run_deliveredInGroup hne (by rw [hlen]; decide)
  refine ⟨s, hrun, broker, hack, ?_, ?_⟩
  · rw [WalEntry.encode_ok_iff]
    rintro ⟨hclient, -⟩
    exact hlong hclient
  · rw [CheckpointSnapshot.encode_ok_iff]
    rintro ⟨-, hnames⟩
    have hcursor : broker.ackCursors.lookup ("group:" ++ g, "t") = some 1 := by
      rw [hcursors, MaxMap.lookup_raise, if_pos rfl]
      rfl
    exact hlong (hnames _ _ hcursor).1

end BlipMQ.Daemon
