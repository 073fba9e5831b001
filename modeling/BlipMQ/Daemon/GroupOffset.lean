import BlipMQ.Daemon.Session
import BlipMQ.Lib.HighWater

/-!
# Daemon — the committed offset of a group

The messages of a topic are spread over the members of a group, which ack
them one by one. All of their acks go to one cursor, and that keeps the
highest id only: a high-water mark. A member that resumes at the mark relies
on everything below it being acked.
-/

namespace BlipMQ.Daemon

open BlipMQ.Core

/-! ## Registrations and ledgers -/

/-- Subscribers have ids that were given out, and a registration names the topic
and the group its subscriber was made for. -/
structure Homed (b : Broker) : Prop where
  old : ∀ x l, b.ledger? x = some l → x < b.nextSubscriptionId
  home : ∀ x subRef l, b.subscriptions.lookup x = some subRef → b.ledger? x = some l →
    l.home = subRef

section Homed

variable {E : Externals} {s s' : State} {b b' : Broker} {a : Action}

/-- Ledgers may get longer and registrations may go. -/
theorem Homed.keep (h : Homed b) (hnext : b'.nextSubscriptionId = b.nextSubscriptionId)
    (hrefs : ∀ x subRef, b'.subscriptions.lookup x = some subRef →
      b.subscriptions.lookup x = some subRef)
    (hledger : ∀ x l', b'.ledger? x = some l' → ∃ l, b.ledger? x = some l ∧ l'.home = l.home) :
    Homed b' where
  old x l' hl' := by
    obtain ⟨l, hl, -⟩ := hledger x l' hl'
    rw [hnext]
    exact h.old x l hl
  home x subRef l' href hl' := by
    obtain ⟨l, hl, hhome⟩ := hledger x l' hl'
    exact hhome.trans (h.home x subRef l (hrefs x subRef href) hl)

theorem Homed.quiet (h : Homed b) (hq : b.Quiet b') : Homed b' :=
  h.keep hq.nextSubscriptionId hq.subscriptions fun x l' hl' =>
    ⟨l', (hq.ledger x).symm.trans hl', rfl⟩

theorem Homed.subscribed {l : Ledger} (h : Homed b) (hs : b.Subscribes b' l) : Homed b' where
  old x l' hl' := by
    rw [hs.nextSubscriptionId]
    rw [hs.ledger] at hl'
    split at hl'
    · rename_i hx
      exact Nat.lt_succ_of_le (Nat.le_of_eq hx)
    · exact Nat.lt_succ_of_lt (h.old x l' hl')
  home x subRef l' href hl' := by
    rw [hs.ledger] at hl'
    rw [hs.subscriptions] at href
    split at hl'
    · rename_i hx
      rw [if_pos hx] at href
      cases hl'
      exact Option.some.inj href
    · rename_i hx
      rw [if_neg hx] at href
      exact h.home x subRef l' href hl'

theorem Homed.publishes {o : Offer} {ids : List Nat} (h : Homed b)
    (hp : b.Publishes b' o ids) : Homed b' := by
  refine h.keep hp.nextSubscriptionId hp.subscriptions fun x l' hl' => ?_
  rw [hp.ledger] at hl'
  obtain ⟨l, hl, rfl⟩ := Option.map_eq_some_iff.mp hl'
  exact ⟨l, hl, rfl⟩

theorem Homed.acks {x tag : Nat} {a : WalAckRecord} (h : Homed b) (ha : b.Acks b' x tag a) :
    Homed b' := by
  refine h.keep ha.nextSubscriptionId (fun _ _ href => ha.subscriptions ▸ href) fun y l' hl' => ?_
  rw [ha.ledger] at hl'
  obtain ⟨l, hl, rfl⟩ := Option.map_eq_some_iff.mp hl'
  refine ⟨l, hl, ?_⟩
  split <;> rfl

theorem Homed.step (h : Homed s.broker) (hs : Daemon.step E s a = some s') : Homed s'.broker := by
  cases step_effect hs with
  | quiet hq _ => exact h.quiet hq
  | subscribed _ hsub => exact h.subscribed hsub
  | fannedOut _ hp => exact h.publishes hp
  | acked ha _ => exact h.acks ha
  | skipped | refused | appended | journaled | compacted => exact h

end Homed

/-! ## The group's view of a process -/

/-- The subscribers made for a topic and group, registered or not. -/
def State.membersOf (s : State) (group topic : String) : List Ledger :=
  (s.broker.ledgers.map Prod.snd).filter (·.home = ⟨topic, some group⟩)

/-- The logged messages that were routed to the group. -/
def State.routedTo (s : State) (group topic : String) : List Nat :=
  (s.membersOf group topic).flatMap fun l => l.offered.filterMap Offer.walId

/-- Those that some member has acked. -/
def State.ackedBy (s : State) (group topic : String) : List Nat :=
  (s.membersOf group topic).flatMap Ledger.acked

/-- The group as a high-water mark. -/
def State.groupMark (s : State) (group topic : String) : HighWater Nat where
  routed := {i | i ∈ s.routedTo group topic}
  settled := {i | i ∈ s.ackedBy group topic}
  mark := s.broker.groupCommittedOffset group topic

instance (s : State) (group topic : String) : Decidable (s.groupMark group topic).Covered :=
  inferInstanceAs (Decidable (∀ i ∈ s.routedTo group topic,
    ∀ c ∈ s.broker.groupCommittedOffset group topic, i ≤ c → i ∈ s.ackedBy group topic))

instance (s : State) (group topic : String) :
    ∀ e, Decidable ((s.groupMark group topic).InOrder e)
  | .route i => inferInstanceAs (Decidable
      (∀ c ∈ s.broker.groupCommittedOffset group topic, i ≤ c → i ∈ s.ackedBy group topic))
  | .settle i => inferInstanceAs (Decidable
      (∀ j ∈ s.routedTo group topic, j ≤ i → j = i ∨ j ∈ s.ackedBy group topic))
  | .raise i => inferInstanceAs (Decidable
      (∀ j ∈ s.routedTo group topic, j ≤ i → j ∈ s.ackedBy group topic))

/-- Is the subscriber there, and made for the topic and the group? -/
def State.isMember (s : State) (group topic : String) (x : Nat) : Bool :=
  (s.broker.ledger? x).any (·.home = ⟨topic, some group⟩)

/-- What a step does to the group: a fan-out may route a message to a member, and
an ack settles one, or raises the cursor of the group without being a member's
if it is that of a client with the group's name. -/
def groupEvent (E : Externals) (group topic : String) (s : State) :
    Action → Option (HighWater.Event Nat)
  | .fanOut i _ =>
    match s.publishing[i]? with
    | none => none
    | some p =>
      if (s.broker.targets E p.message.topic none).any (s.isMember group topic) then
        some (.route p.walId)
      else none
  | .ack subId tag =>
    match (s.broker.ack subId tag).bind Prod.snd with
    | none => none
    | some a =>
      if s.isMember group topic subId then some (.settle a.ackedWalId)
      else if (a.clientId, a.topic) = ("group:" ++ group, topic) then some (.raise a.ackedWalId)
      else none
  | _ => none

section View

variable {E : Externals} {s s' : State} {g t : String} {i : Nat}

theorem mem_flatMap_membersOf {f : Ledger → List Nat} : i ∈ (s.membersOf g t).flatMap f ↔
    ∃ x l, s.broker.ledger? x = some l ∧ l.home = ⟨t, some g⟩ ∧ i ∈ f l := by
  simp only [State.membersOf, List.mem_flatMap, List.mem_filter, decide_eq_true_eq, List.mem_map]
  constructor
  · rintro ⟨_, ⟨⟨e, he, rfl⟩, hhome⟩, hi⟩
    exact ⟨e.1, e.2, Broker.mem_ledgers.mp he, hhome, hi⟩
  · rintro ⟨x, l, hx, hhome, hi⟩
    exact ⟨l, ⟨⟨(x, l), Broker.mem_ledgers.mpr hx, rfl⟩, hhome⟩, hi⟩

theorem mem_routedTo : i ∈ s.routedTo g t ↔ ∃ x l, s.broker.ledger? x = some l ∧
    l.home = ⟨t, some g⟩ ∧ ∃ o ∈ l.offered, o.walId = some i := by
  simp only [State.routedTo, mem_flatMap_membersOf, List.mem_filterMap]

theorem mem_ackedBy : i ∈ s.ackedBy g t ↔ ∃ x l, s.broker.ledger? x = some l ∧
    l.home = ⟨t, some g⟩ ∧ i ∈ l.acked :=
  mem_flatMap_membersOf

theorem isMember_iff {x : Nat} : s.isMember g t x = true ↔
    ∃ l, s.broker.ledger? x = some l ∧ l.home = ⟨t, some g⟩ := by
  rw [State.isMember, Option.any_eq_true]
  simp

/-- Steps that no ledger and no cursor shows. -/
theorem groupMark_congr (hledger : ∀ x, s'.broker.ledger? x = s.broker.ledger? x)
    (hcursors : s'.broker.ackCursors = s.broker.ackCursors) :
    s'.groupMark g t = s.groupMark g t := by
  ext i
  · show i ∈ s'.routedTo g t ↔ i ∈ s.routedTo g t
    simp only [mem_routedTo, hledger]
  · show i ∈ s'.ackedBy g t ↔ i ∈ s.ackedBy g t
    simp only [mem_ackedBy, hledger]
  · show i ∈ s'.broker.groupCommittedOffset g t ↔ i ∈ s.broker.groupCommittedOffset g t
    rw [Broker.groupCommittedOffset, hcursors, Broker.groupCommittedOffset]

/-- A new subscriber has been offered nothing and has acked nothing. -/
theorem groupMark_subscribed {l : Ledger} (h : Homed s.broker)
    (hs : s.broker.Subscribes s'.broker l) : s'.groupMark g t = s.groupMark g t := by
  have hnew : s.broker.ledger? s.broker.nextSubscriptionId = none := by
    cases hl : s.broker.ledger? s.broker.nextSubscriptionId with
    | none => rfl
    | some l' => exact absurd (h.old _ l' hl) (Nat.lt_irrefl _)
  -- a list that is empty for the new ledger has the same elements as before
  have hsame : ∀ (P : Ledger → Prop), ¬ P l →
      ((∃ x l', s'.broker.ledger? x = some l' ∧ l'.home = ⟨t, some g⟩ ∧ P l') ↔
        ∃ x l', s.broker.ledger? x = some l' ∧ l'.home = ⟨t, some g⟩ ∧ P l') := by
    intro P hP
    refine exists_congr fun x => exists_congr fun l' => ?_
    rw [hs.ledger]
    split
    · rename_i hx
      rw [hx, hnew]
      constructor
      · rintro ⟨hl', -, hp⟩
        cases hl'
        exact absurd hp hP
      · rintro ⟨hl', -⟩
        cases hl'
    · rfl
  refine HighWater.ext (Set.ext fun i => ?_) (Set.ext fun i => ?_) ?_
  · refine mem_routedTo.trans ((hsame _ ?_).trans mem_routedTo.symm)
    rw [hs.fresh.1]
    rintro ⟨o, ho, -⟩
    exact absurd ho List.not_mem_nil
  · refine mem_ackedBy.trans ((hsame _ ?_).trans mem_ackedBy.symm)
    rw [hs.fresh.2]
    exact List.not_mem_nil
  · exact congrArg (·.lookup ("group:" ++ g, t)) hs.ackCursors

/-- What is true of some ledger of the group after a change of the ledgers. -/
theorem exists_ledger_iff {b b' : Broker} {change : Nat → Ledger → Ledger} {home : SubscriptionRef}
    (hledger : ∀ x, b'.ledger? x = (b.ledger? x).map (change x))
    (hhome : ∀ x l, (change x l).home = l.home) (P : Ledger → Prop) :
    (∃ x l', b'.ledger? x = some l' ∧ l'.home = home ∧ P l') ↔
      ∃ x l, b.ledger? x = some l ∧ l.home = home ∧ P (change x l) := by
  refine exists_congr fun x => ?_
  rw [hledger]
  constructor
  · rintro ⟨l', hl', hl'home, hp⟩
    obtain ⟨l, hl, rfl⟩ := Option.map_eq_some_iff.mp hl'
    exact ⟨l, hl, (hhome x l).symm.trans hl'home, hp⟩
  · rintro ⟨l, hl, hlhome, hp⟩
    exact ⟨change x l, by rw [hl]; rfl, (hhome x l).trans hlhome, hp⟩

/-- A fan-out routes the message to the group if a member is among the targets. -/
theorem groupMark_publishes {o : Offer} {ids : List Nat}
    (hp : s.broker.Publishes s'.broker o ids) (hid : o.walId = some i) :
    s'.groupMark g t =
      if ids.any (s.isMember g t) then (s.groupMark g t).step (.route i)
      else s.groupMark g t := by
  have hrouted : ∀ j, j ∈ s'.routedTo g t ↔
      (j = i ∧ ids.any (s.isMember g t) = true) ∨ j ∈ s.routedTo g t := by
    intro j
    rw [mem_routedTo, mem_routedTo, exists_ledger_iff hp.ledger (fun _ _ => rfl)]
    simp only [List.any_eq_true, isMember_iff]
    constructor
    · rintro ⟨x, l, hl, hhome, o', ho', hj⟩
      rcases List.mem_append.mp ho' with ho' | ho'
      · exact .inr ⟨x, l, hl, hhome, o', ho', hj⟩
      · obtain ⟨hcount, rfl⟩ := List.mem_replicate.mp ho'
        rw [hid] at hj
        exact .inl ⟨(Option.some.inj hj).symm, x,
          List.count_pos_iff.mp (Nat.pos_of_ne_zero hcount), l, hl, hhome⟩
    · rintro (⟨rfl, x, hx, l, hl, hhome⟩ | ⟨x, l, hl, hhome, o', ho', hj⟩)
      · refine ⟨x, l, hl, hhome, o, List.mem_append_right _ ?_, hid⟩
        exact List.mem_replicate.mpr ⟨Nat.ne_of_gt (List.count_pos_iff.mpr hx), rfl⟩
      · exact ⟨x, l, hl, hhome, o', List.mem_append_left _ ho', hj⟩
  have hacked : ∀ j, j ∈ s'.ackedBy g t ↔ j ∈ s.ackedBy g t := by
    intro j
    rw [mem_ackedBy, mem_ackedBy, exists_ledger_iff hp.ledger (fun _ _ => rfl)]
    rfl
  have hmark : s'.broker.groupCommittedOffset g t = s.broker.groupCommittedOffset g t :=
    congrArg (·.lookup ("group:" ++ g, t)) hp.ackCursors
  split
  · rename_i hany
    refine HighWater.ext (Set.ext fun j => ?_) (Set.ext hacked) hmark
    exact (hrouted j).trans (or_congr_left (and_iff_left hany))
  · rename_i hnone
    refine HighWater.ext (Set.ext fun j => ?_) (Set.ext hacked) hmark
    exact (hrouted j).trans (or_iff_right fun hj => hnone hj.2)

theorem lookup_raise_eq (m : MaxMap (String × String)) (k : String × String) (v : Nat) :
    (m.raise k v).lookup k = HighWater.raised (m.lookup k) v := by
  rw [MaxMap.lookup_raise, if_pos rfl, MaxMap.get]
  cases m.lookup k with
  | none => exact congrArg some (Nat.zero_max v)
  | some c => rfl

/-- An ack of a logged message. -/
theorem groupMark_acks {x tag : Nat} {a : WalAckRecord} (h : Homed s.broker)
    (ha : s.broker.Acks s'.broker x tag a) : s'.groupMark g t =
      if s.isMember g t x then (s.groupMark g t).step (.settle a.ackedWalId)
      else if (a.clientId, a.topic) = ("group:" ++ g, t) then
        (s.groupMark g t).step (.raise a.ackedWalId)
      else s.groupMark g t := by
  have hhome : ∀ (y : Nat) (l : Ledger),
      (if y = x then l.ack a.ackedWalId else l).home = l.home := by
    intro y l
    split <;> rfl
  have hrouted : ∀ i, i ∈ s'.routedTo g t ↔ i ∈ s.routedTo g t := by
    intro i
    rw [mem_routedTo, mem_routedTo, exists_ledger_iff ha.ledger hhome]
    refine exists_congr fun y => exists_congr fun l => ?_
    split <;> rfl
  have hacked : ∀ i, i ∈ s'.ackedBy g t ↔
      (i = a.ackedWalId ∧ s.isMember g t x = true) ∨ i ∈ s.ackedBy g t := by
    intro i
    rw [mem_ackedBy, mem_ackedBy, exists_ledger_iff ha.ledger hhome, isMember_iff]
    constructor
    · rintro ⟨y, l, hl, hlhome, hi⟩
      split at hi
      · rename_i hy
        subst hy
        rcases List.mem_append.mp hi with hi | hi
        · exact .inr ⟨y, l, hl, hlhome, hi⟩
        · exact .inl ⟨List.mem_singleton.mp hi, l, hl, hlhome⟩
      · exact .inr ⟨y, l, hl, hlhome, hi⟩
    · rintro (⟨rfl, l, hl, hlhome⟩ | ⟨y, l, hl, hlhome, hi⟩)
      · refine ⟨x, l, hl, hlhome, ?_⟩
        rw [if_pos rfl]
        exact List.mem_append_right _ (List.mem_singleton_self _)
      · refine ⟨y, l, hl, hlhome, ?_⟩
        split
        · exact List.mem_append_left _ hi
        · exact hi
  have hmark : s'.broker.groupCommittedOffset g t =
      if (a.clientId, a.topic) = ("group:" ++ g, t) then
        HighWater.raised (s.broker.groupCommittedOffset g t) a.ackedWalId
      else s.broker.groupCommittedOffset g t := by
    unfold Broker.groupCommittedOffset
    rw [ha.ackCursors]
    split
    · rename_i hkey
      rw [hkey, lookup_raise_eq]
    · rename_i hkey
      rw [MaxMap.lookup_raise, if_neg (Ne.symm hkey)]
  split
  · rename_i hmember
    obtain ⟨subRef, sub, e, href, -, -, -, hclient, htopic⟩ := ha.source
    obtain ⟨l, hl, hlhome⟩ := isMember_iff.mp hmember
    obtain rfl : subRef = ⟨t, some g⟩ := (h.home x subRef l href hl).symm.trans hlhome
    have hkey : (a.clientId, a.topic) = ("group:" ++ g, t) := Prod.ext hclient htopic
    refine HighWater.ext (Set.ext hrouted) (Set.ext fun i => ?_) (hmark.trans (if_pos hkey))
    exact (hacked i).trans (or_congr_left (and_iff_left hmember))
  · rename_i hother
    have hsettled : ∀ i, i ∈ s'.ackedBy g t ↔ i ∈ s.ackedBy g t :=
      fun i => (hacked i).trans (or_iff_right fun hi => hother hi.2)
    split
    · rename_i hkey
      exact HighWater.ext (Set.ext hrouted) (Set.ext hsettled) (hmark.trans (if_pos hkey))
    · rename_i hkey
      exact HighWater.ext (Set.ext hrouted) (Set.ext hsettled) (hmark.trans (if_neg hkey))

/-- Only fan-outs and acks are seen by a group. -/
theorem groupMark_of_effect {a : Action} (h : Homed s.broker) (he : Effect E s a s')
    (hfanOut : ∀ i now, a ≠ .fanOut i now) (hack : ∀ x tag, a ≠ .ack x tag) :
    s'.groupMark g t = s.groupMark g t := by
  cases he with
  | quiet hq _ => exact groupMark_congr hq.ledger hq.ackCursors
  | subscribed _ hs => exact groupMark_subscribed h hs
  | fannedOut => exact absurd rfl (hfanOut _ _)
  | acked => exact absurd rfl (hack _ _)
  | skipped | refused | appended | journaled | compacted =>
    exact groupMark_congr (fun _ => rfl) rfl

/-- **A step of the process is a step of the group's high-water mark.** -/
theorem groupMark_step {a : Action} (h : Homed s.broker) (hs : step E s a = some s') :
    s'.groupMark g t = (groupEvent E g t s a).elim (s.groupMark g t) (s.groupMark g t).step := by
  cases a with
  | fanOut i now =>
    change stepFanOut E s i now = some s' at hs
    unfold stepFanOut at hs
    cases hp : s.publishing[i]? with
    | none =>
      rw [hp] at hs
      cases hs
    | some p =>
      rw [hp] at hs
      cases hs
      refine (groupMark_publishes (Broker.publishInner_spec ..) rfl).trans ?_
      simp only [groupEvent, hp]
      change (if (s.broker.targets E p.message.topic none).any (s.isMember g t) then _ else _) = _
      split <;> rfl
  | ack x tag =>
    change some (stepAck s x tag) = some s' at hs
    cases hs
    cases hack : s.broker.ack x tag with
    | none => simp [stepAck, groupEvent, hack]
    | some out =>
      obtain ⟨broker, entry⟩ := out
      cases entry with
      | none =>
        have hq := Broker.ack_quiet hack
        simp only [stepAck, groupEvent, hack, Option.bind_some, Option.elim_none]
        exact groupMark_congr hq.ledger hq.ackCursors
      | some a =>
        simp only [stepAck, groupEvent, hack, Option.bind_some]
        refine (groupMark_acks h (Broker.ack_spec hack)).trans ?_
        split
        · rfl
        · split <;> rfl
  | _ => exact groupMark_of_effect h (step_effect hs) (by simp) (by simp)

end View

/-- **When resuming a group at its committed offset skips nothing.** In every run
of a process on a new log, everything routed to the group up to the committed
offset is acked by some member at all times, just if the group keeps to the
order of the ids: a message is fanned out to a member only under an id beyond
the offset, and an id is acked only when everything routed to the group up to
it is acked. -/
theorem group_offset_skips_nothing_iff (E : Externals) (config : BrokerConfig)
    (group topic : String) (acts : List Action) :
    (∀ before after s, acts = before ++ after →
      run (step E) (start E config) before = some s → (s.groupMark group topic).Covered) ↔
    Meets (step E) (fun s a => ∀ e ∈ groupEvent E group topic s a,
      (s.groupMark group topic).InOrder e) (start E config) acts := by
  have hnew : Homed (start E config).broker := by
    constructor
    · intro x l hl
      cases hl
    · intro x subRef l href
      cases href
  have hcovered : ((start E config).groupMark group topic).Covered := by
    intro i hi
    obtain ⟨_, _, hl, -⟩ := mem_routedTo.mp hi
    cases hl
  refine HighWater.covered_run_iff (P := fun s => Homed s.broker) (fun _ _ _ h hs => h.step hs)
    (fun _ _ _ => groupMark_step) hnew hcovered acts ?_
  intro s a hs
  cases a with
  | fanOut i now =>
    change stepFanOut E s i now = none at hs
    unfold stepFanOut at hs
    cases hp : s.publishing[i]? with
    | none => simp only [groupEvent, hp]
    | some p =>
      rw [hp] at hs
      cases hs
  | ack x tag => cases hs
  | _ => rfl

/-- Two messages for a group of two; each member polls one and the acks come in
this order. -/
def ackedInTurn (acks : List Nat) : List Action :=
  [.subscribe "a" "t" .atLeastOnce none .poll (some "g"),
    .subscribe "b" "t" .atLeastOnce none .poll (some "g"),
    .append ⟨"t", .atLeastOnce, [7]⟩ false, .fanOut 0 0,
    .append ⟨"t", .atLeastOnce, [8]⟩ false, .fanOut 0 0, .poll 1 0, .poll 2 0] ++
    acks.map (Action.ack · 1)

/-- Acks in the order of the ids. -/
theorem group_offset_skips_nothing_iff_in_turn :
    ∃ s, run (step plainExternals) (start plainExternals .default) (ackedInTurn [1, 2]) = some s ∧
      s.broker.groupCommittedOffset "g" "t" = some 2 ∧ s.routedTo "g" "t" = [2, 1] ∧
      (s.groupMark "g" "t").Covered := by
  obtain ⟨s, hs, hoffset, hrouted⟩ : ∃ s, run (step plainExternals)
      (start plainExternals .default) (ackedInTurn [1, 2]) = some s ∧
        s.broker.groupCommittedOffset "g" "t" = some 2 ∧ s.routedTo "g" "t" = [2, 1] := by
    decide +kernel
  refine ⟨s, hs, hoffset, hrouted, ?_⟩
  refine (group_offset_skips_nothing_iff plainExternals .default "g" "t" _).mpr ?_ _ [] s
    (List.append_nil _).symm hs
  decide +kernel

/-- **The offset skips a message**: the second member acks the message 2 first. The
committed offset is 2, and nobody has acked the message 1. -/
theorem group_offset_skips_unacked :
    (run (step plainExternals) (start plainExternals .default) (ackedInTurn [2])).map (fun s =>
        (s.broker.groupCommittedOffset "g" "t", s.routedTo "g" "t", s.ackedBy "g" "t",
          decide (s.groupMark "g" "t").Covered)) =
      some (some 2, [2, 1], [2], false) := by
  decide +kernel

end BlipMQ.Daemon
