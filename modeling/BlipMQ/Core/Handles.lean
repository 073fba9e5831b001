import BlipMQ.Core.System

/-!
# Broker — handles of topic records

A topic record is made at the first subscription under its name, is never
removed and keeps its allocation, so a handle that was resolved once is the
record the registry has for as long as the broker lives.
-/

namespace BlipMQ.Core

namespace Broker

variable {E : Externals} {b b' b'' : Broker} {name : String}

/-- The handle of the record under a name. -/
def table (b : Broker) (name : String) : Option Nat := (b.topics.lookup name).map Topic.handle

theorem resolveTopic_eq (b : Broker) (name : String) :
    b.resolveTopic name = (b.table name).map ResolvedTopic.mk := by
  rw [resolveTopic, table, Option.map_map]
  rfl

/-! ## What calls do to the records -/

/-- No record comes, and those there keep their handles. -/
structure SameTopics (b b' : Broker) : Prop where
  table : ∀ name, b'.table name = b.table name
  created : b'.topicsCreated = b.topicsCreated

theorem SameTopics.refl (b : Broker) : SameTopics b b := ⟨fun _ => rfl, rfl⟩

theorem SameTopics.trans (h : SameTopics b b') (h' : SameTopics b' b'') : SameTopics b b'' :=
  ⟨fun name => (h'.table name).trans (h.table name), h'.created.trans h.created⟩

theorem SameTopics.foldl {α : Type*} {f : Broker → α → Broker} (hf : ∀ b a, SameTopics b (f b a))
    (as : List α) (b : Broker) : SameTopics b (as.foldl f b) := by
  induction as generalizing b with
  | nil => exact .refl b
  | cons a as ih => exact (hf b a).trans (ih (f b a))

theorem SameTopics.of_topics (htopics : b'.topics = b.topics)
    (hcreated : b'.topicsCreated = b.topicsCreated) : SameTopics b b' :=
  ⟨fun name => by rw [Broker.table, htopics, Broker.table], hcreated⟩

/-- The record under one name is changed, its handle is not. -/
theorem SameTopics.of_modifyAt {f : Topic → Topic} (hf : ∀ t, (f t).handle = t.handle)
    (htopics : b'.topics = modifyAt b.topics name f)
    (hcreated : b'.topicsCreated = b.topicsCreated) : SameTopics b b' := by
  refine ⟨fun other => ?_, hcreated⟩
  have hcomp : Topic.handle ∘ f = Topic.handle := funext hf
  rw [Broker.table, htopics, lookup_modifyAt, Broker.table]
  split
  · rename_i heq
    rw [Option.map_map, hcomp, heq]
  · rfl

/-- A record of a new name, with the next handle. -/
structure AddsTopic (b b' : Broker) (name : String) : Prop where
  absent : b.table name = none
  table : ∀ other, b'.table other = if other = name then some b.topicsCreated else b.table other
  created : b'.topicsCreated = b.topicsCreated + 1

theorem Topic.handle_add (t : Topic) (x : Nat) (g : Option String) :
    (t.add x g).handle = t.handle := by
  cases g <;> rfl

theorem Topic.handle_remove (t : Topic) (x : Nat) (g : Option String) :
    (t.remove x g).handle = t.handle := by
  cases g <;> rfl

theorem startPublish_topics (b : Broker) (record : Option String) (walId : Option Nat)
    (key : Option Bytes) : SameTopics b (b.startPublish E record walId key) := by
  cases record with
  | none => exact .of_topics rfl rfl
  | some name =>
    refine .of_modifyAt ?_ rfl rfl
    exact fun _ => rfl

theorem endPublish_topics (b : Broker) (record : Option String) (delivered dropped : Nat) :
    SameTopics b (b.endPublish record delivered dropped) := by
  cases record with
  | none => exact .of_topics rfl rfl
  | some name =>
    refine .of_modifyAt ?_ rfl rfl
    exact fun _ => rfl

theorem removeFromTopic_topics (b : Broker) (x : Nat) (subRef : SubscriptionRef) :
    SameTopics b (b.removeFromTopic x subRef) := by
  refine .of_modifyAt ?_ rfl rfl
  exact fun t => Topic.handle_remove t x subRef.group

theorem Served.sameTopics {now : Nat} {ttl : Option Nat} {os : Nat → List Offer}
    (h : Served now ttl b b' os) : SameTopics b b' := by
  obtain ⟨_, _, _, rfl⟩ := h.frame
  exact .of_topics rfl rfl

theorem unsubscribeOne_topics (b : Broker) (x : Nat) : SameTopics b (b.unsubscribeOne x) := by
  unfold unsubscribeOne
  split
  · exact .refl b
  · exact .of_modifyAt (Topic.handle_remove · x _) rfl rfl

theorem unsubscribeConnection_topics (b : Broker) (connId : Nat) :
    SameTopics b (b.unsubscribeConnection connId) := by
  have hfold (b : Broker) (removed : List (Nat × SubscriptionRef)) :
      SameTopics b (removed.foldl (fun b p => b.removeFromTopic p.1 p.2) b) :=
    .foldl (fun b p => removeFromTopic_topics b p.1 p.2) removed b
  have hderegister : SameTopics b { b with
      connectionSubs := b.connectionSubs.erase connId
      subscriptions := ((b.connectionSubs.lookup connId).getD []).foldl
        (fun subs sid => subs.erase sid) b.subscriptions } := .of_topics rfl rfl
  unfold unsubscribeConnection
  dsimp only
  split
  · exact hderegister.trans (hfold _ _)
  · exact (hderegister.trans (hfold _ _)).trans (.of_topics rfl rfl)

theorem publishInner_topics (b : Broker) (now : Nat) (pre : Option ResolvedTopic) (o : Offer)
    (ttl : Option Nat) (key : Option Bytes) :
    SameTopics b (b.publishInner E now pre o ttl key) := by
  rcases publishInner_cases E b now pre o ttl key with
    ⟨-, heq⟩ | ⟨-, b₁, _, _, _, evicted, -, hserved, heq, -⟩
  · rw [heq]
    exact .refl b
  · rw [heq]
    exact (((startPublish_topics b _ _ key).trans hserved.sameTopics).trans
      (endPublish_topics b₁ ..)).trans (.foldl unsubscribeOne_topics _ _)

theorem maintenanceTick_topics (b : Broker) (now clock : Nat) :
    SameTopics b (b.maintenanceTick E now clock) := by
  refine maintenanceTick_invariant (.refl b) now clock ?_
    fun b' letter h => h.trans (publishInner_topics b' ..)
  intro b' x sub h _
  exact h.trans (.of_topics rfl rfl)

theorem replayTo_topics (now : Nat) (topic : String) (x : Nat) (b : Broker) (r : Wal.WalRecord) :
    SameTopics b (replayTo E now topic x b r) := by
  unfold replayTo
  split
  · split
    · exact (deliver_served ..).sameTopics
    · exact .refl b
  · exact .refl b

/-- A subscription finds the record under its name, or makes one. -/
theorem subscribe_topics (b : Broker) (clientId topic : String) (qos : QoSLevel)
    (connId : Option Nat) (mode : DeliveryMode) (group : Option String) :
    let b' := (b.subscribeInnerGrouped clientId topic qos connId mode group).1
    SameTopics b b' ∨ AddsTopic b b' topic := by
  intro b'
  have htable (other : String) : b'.table other =
      if other = topic then some (b.topicOrNew topic).handle else b.table other := by
    show ((b.topics.insert topic _).lookup other).map Topic.handle = _
    rw [lookup_insert_eq, table]
    split
    · exact congrArg some (Topic.handle_add ..)
    · rfl
  have hcreated : b'.topicsCreated =
      if (b.topics.lookup topic).isSome then b.topicsCreated else b.topicsCreated + 1 := rfl
  cases hl : b.topics.lookup topic with
  | some record =>
    left
    refine ⟨fun other => ?_, by rw [hcreated, hl]; rfl⟩
    rw [htable]
    split
    · rename_i heq
      rw [heq, table, topicOrNew, hl]
      rfl
    · rfl
  | none =>
    right
    refine ⟨by rw [table, hl]; rfl, fun other => ?_, by rw [hcreated, hl]; rfl⟩
    rw [htable, topicOrNew, hl]
    rfl

/-- What a call can do to the topic records. -/
theorem act_topics (b : Broker) (a : BrokerAction) :
    SameTopics b (b.act E a) ∨ ∃ name, AddsTopic b (b.act E a) name := by
  cases a with
  | subscribe clientId topic qos connId mode group =>
    exact (subscribe_topics b clientId topic qos connId mode group).imp_right fun h => ⟨_, h⟩
  | subscribePattern clientId pattern qos connId mode =>
    simp only [act]
    split
    · exact .inl (.refl b)
    · rename_i p hp
      unfold subscribePatternInner
      split
      · exact (subscribe_topics b clientId p.exactSubject qos connId mode none).imp_right
          fun h => ⟨_, h⟩
      · refine (subscribe_topics b clientId p.raw qos connId mode none).imp ?_ ?_
        · exact fun h => h.trans (.of_topics rfl rfl)
        · exact fun h => ⟨p.raw, h.absent, h.table, h.created⟩
  | unsubscribeConnection connId => exact .inl (unsubscribeConnection_topics b connId)
  | publish now pre o ttl key => exact .inl (publishInner_topics b now pre o ttl key)
  | poll now subId =>
    simp only [act, poll]
    split
    · exact .inl (.of_topics rfl rfl)
    · exact .inl (.refl b)
  | ack subId tag =>
    simp only [act, ack]
    split
    · split
      · exact .inl (.refl b)
      · exact .inl (.of_topics rfl rfl)
      · exact .inl (.of_topics rfl rfl)
    · exact .inl (.refl b)
  | maintenanceTick now clock => exact .inl (maintenanceTick_topics b now clock)
  | replayFromWal now log checkpoint =>
    obtain ⟨b₁, hserved, heq⟩ := replay_served E now log b checkpoint
    simp only [act, heq]
    exact .inl (hserved.sameTopics.trans (.of_topics rfl rfl))
  | replayToSubscriber now log subId fromOffset =>
    simp only [act, replayToSubscriber]
    split
    · exact .inl (.refl b)
    · exact .inl (.foldl (fun b r => replayTo_topics now _ subId b r) _ _)
  | buffers slots channels => exact .inl (.of_topics rfl rfl)
  | beginShutdown => exact .inl (.of_topics rfl rfl)

/-! ## Handles stay valid -/

/-- Every handle was given out, to one record. -/
structure Handles (b : Broker) : Prop where
  lt : ∀ name h, b.table name = some h → h < b.topicsCreated
  inj : ∀ name name' h, b.table name = some h → b.table name' = some h → name = name'

theorem Handles.act (h : b.Handles) (a : BrokerAction) : (b.act E a).Handles := by
  rcases act_topics b a with hs | ⟨name, ha⟩
  · refine ⟨fun name k hk => ?_, fun name name' k hk hk' => ?_⟩
    · rw [hs.created]
      exact h.lt name k (hs.table name ▸ hk)
    · exact h.inj name name' k (hs.table name ▸ hk) (hs.table name' ▸ hk')
  · refine ⟨fun other k hk => ?_, fun other other' k hk hk' => ?_⟩
    · rw [ha.table] at hk
      rw [ha.created]
      split at hk
      · cases hk
        exact Nat.lt_succ_self _
      · exact Nat.lt_succ_of_lt (h.lt other k hk)
    · -- the new handle is above every old one
      rw [ha.table] at hk hk'
      split at hk <;> split at hk'
      · rename_i h₁ h₂
        rw [h₁, h₂]
      · cases hk
        exact absurd (h.lt other' _ hk') (Nat.lt_irrefl _)
      · cases hk'
        exact absurd (h.lt other _ hk) (Nat.lt_irrefl _)
      · exact h.inj other other' k hk hk'

theorem table_act {k : Nat} (h : b.table name = some k) (a : BrokerAction) :
    (b.act E a).table name = some k := by
  rcases act_topics b a with hs | ⟨new, ha⟩
  · rw [hs.table, h]
  · have hne : name ≠ new := by
      rintro rfl
      rw [ha.absent] at h
      cases h
    rw [ha.table, if_neg hne, h]

variable {r : ResolvedTopic}

/-- **A handle that was resolved once stays the one the registry has.** -/
theorem resolveTopic_act (h : b.resolveTopic name = some r) (a : BrokerAction) :
    (b.act E a).resolveTopic name = some r := by
  rw [resolveTopic_eq, Option.map_eq_some_iff] at h ⊢
  obtain ⟨k, hk, rfl⟩ := h
  exact ⟨k, table_act hk a, rfl⟩

/-- The record a valid handle points to is the one under the name. -/
theorem record_resolved (h : b.Handles) (hr : b.resolveTopic name = some r) :
    b.record name (some r) = b.record name none := by
  obtain ⟨topic, htopic, hhandle⟩ := Option.map_eq_some_iff.mp hr
  have hmem : (⟨name, topic⟩ : Sigma fun _ : String => Topic) ∈ b.topics.entries :=
    AList.mem_lookup_iff.mp htopic
  have hhandle' : topic.handle = r.handle := congrArg ResolvedTopic.handle hhandle
  have hfound : (b.topics.entries.find? fun e => e.2.handle = r.handle).isSome = true :=
    List.find?_isSome.mpr ⟨_, hmem, decide_eq_true hhandle'⟩
  obtain ⟨e, he⟩ := Option.isSome_iff_exists.mp hfound
  have hentry : b.topics.lookup e.1 = some e.2 :=
    AList.mem_lookup_iff.mpr (List.mem_of_find?_eq_some he)
  have hsame : e.2.handle = r.handle := by simpa using List.find?_some he
  have hname : e.1 = name :=
    h.inj e.1 name r.handle (by rw [table, hentry, ← hsame]; rfl)
      (by rw [table, htopic, ← hhandle']; rfl)
  simp only [record, he, htopic, Option.map_some, hname]

theorem publishInner_resolved (h : b.Handles) {o : Offer} (hr : b.resolveTopic o.topic = some r)
    (now : Nat) (ttl : Option Nat) (key : Option Bytes) :
    b.publishInner E now (some r) o ttl key = b.publishInner E now none o ttl key := by
  unfold publishInner
  rw [record_resolved h hr]

end Broker

theorem Broker.Handles.run {E : Externals} {b : Broker} (h : b.Handles)
    (acts : List BrokerAction) : (acts.foldl (Broker.act E) b).Handles := by
  induction acts generalizing b with
  | nil => exact h
  | cons a acts ih => exact ih (h.act a)

theorem Broker.resolveTopic_run {E : Externals} {b : Broker} {name : String} {r : ResolvedTopic}
    (h : b.resolveTopic name = some r) (acts : List BrokerAction) :
    (acts.foldl (Broker.act E) b).resolveTopic name = some r := by
  induction acts generalizing b with
  | nil => exact h
  | cons a acts ih => exact ih (resolveTopic_act h a)

theorem System.handles_run (E : Externals) (config : BrokerConfig) (hasWal : Bool)
    (acts : List BrokerAction) : ((System.new config hasWal).run E acts).broker.Handles := by
  have hnew : (System.new config hasWal).broker.Handles := ⟨nofun, nofun⟩
  rw [System.broker_run]
  exact hnew.run acts

end BlipMQ.Core
