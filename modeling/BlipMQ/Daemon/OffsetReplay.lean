import BlipMQ.Core.Kept
import BlipMQ.Core.Origin
import BlipMQ.Core.Targets
import BlipMQ.Daemon.Session
import BlipMQ.Net.Handler

/-!
# Daemon — a subscription that starts in the past

A SUBSCRIBE with an offset registers the subscription, then reads the log
from the offset on, and then pushes the records it has read, one after the
other. Between these steps `publish_durable` calls take an id, get their
record into the log and fan out, and the other connections go on as well.
The log is the list of its indexed records, in the order in which they came
in, and `iterate_from` returns all of them from an id on.

`returned` is bookkeeping no step reads: the publishes that have returned,
with the messages earlier processes have left in the log.
-/

namespace BlipMQ.Daemon.OffsetReplay

open BlipMQ.Core
open Wal (WalRecord)

/-- A SUBSCRIBE of a connection with a slot, without a group. -/
structure Subscribe where
  connId : Nat
  slot : Nat
  topic : String
  qos : QoSLevel
  fromOffset : Nat

/-- How far the SUBSCRIBE has come. -/
inductive Progress where
  | waiting
  | registered (subId : Nat)
  /-- The log was read; these records are still to be looked at. -/
  | replaying (subId : Nat) (topic : String) (records : List WalRecord)
  | finished (subId : Nat)
  deriving DecidableEq

structure State where
  broker : Broker
  records : List WalRecord
  nextId : Nat
  /-- The publishes that have an id but no record yet. -/
  building : List Publication
  /-- Those whose record is in the log and flushed. -/
  publishing : List Publication
  returned : List Publication
  progress : Progress

inductive Action where
  /-- A call on the broker by another task. -/
  | call (a : BrokerAction)
  /-- `publish_durable` up to the request for the writer. -/
  | publishDurable (message : WalMessageRecord)
  /-- The writer appends, indexes and flushes the record of the `i`-th publish. -/
  | append (i : Nat)
  /-- The `i`-th publish has its answer and fans out. -/
  | fanOut (i now : Nat)
  /-- Some other record gets into the log: that of an ack, or of a publish that
  has failed. -/
  | appendOther (r : WalRecord)
  /-- `subscribe_with_slot`. -/
  | register
  /-- `replay_to_subscriber` up to the end of `iterate_from`. -/
  | read
  /-- The next turn of its loop. -/
  | push (now : Nat)

/-! ## The steps -/

/-- The daemon goes on, and so does the connection of the SUBSCRIBE. -/
def Subscribe.bystander (q : Subscribe) : BrokerAction → Bool
  | .unsubscribeConnection connId => connId ≠ q.connId
  | .beginShutdown => false
  | _ => true

def stepPublishDurable (s : State) (message : WalMessageRecord) : Option State :=
  if s.broker.shuttingDown then some s
  else
    match (WalEntry.message message).encode with
    | .error _ => some s
    | .ok payload =>
      if s.nextId < 2 ^ 64 then
        -- too long for a record: an error, but the id is gone
        if 2 ^ 32 ≤ payload.length then some { s with nextId := s.nextId + 1 }
        else some { s with
          nextId := s.nextId + 1
          building := s.building ++ [⟨s.nextId, message⟩] }
      else none

def stepAppend (s : State) (i : Nat) : Option State :=
  match s.building[i]? with
  | none => none
  | some p =>
    match (WalEntry.message p.message).encode with
    | .error _ => none
    | .ok payload => some { s with
        records := s.records ++ [⟨p.walId, payload⟩]
        building := s.building.eraseIdx i
        publishing := s.publishing ++ [p] }

def stepFanOut (E : Externals) (s : State) (i now : Nat) : Option State :=
  match s.publishing[i]? with
  | none => none
  | some p => some { s with
      broker := s.broker.publishInner E now none p.offer none none
      publishing := s.publishing.eraseIdx i
      returned := s.returned ++ [p] }

def stepRegister (q : Subscribe) (s : State) : Option State :=
  match s.progress with
  | .waiting =>
    let subscribed := s.broker.subscribeWithSlot (Net.clientIdOf q.connId) q.topic q.qos q.connId
      q.slot
    some { s with broker := subscribed.1, progress := .registered subscribed.2 }
  | _ => none

/-- `iterate_from`. -/
def iterateFrom (records : List WalRecord) (start : Nat) : List WalRecord :=
  records.filter (start ≤ ·.id)

def stepRead (q : Subscribe) (s : State) : Option State :=
  match s.progress with
  | .registered subId =>
    match s.broker.subscriptions.lookup subId with
    | none => some { s with progress := .finished subId }
    | some subRef =>
      let startId := if q.fromOffset = 0 then 1 else q.fromOffset
      some { s with progress := .replaying subId subRef.topic (iterateFrom s.records startId) }
  | _ => none

def stepPush (E : Externals) (s : State) (now : Nat) : Option State :=
  match s.progress with
  | .replaying subId _ [] => some { s with progress := .finished subId }
  | .replaying subId topic (r :: records) => some { s with
      broker := Broker.replayTo E now topic subId s.broker r
      progress := .replaying subId topic records }
  | _ => none

def step (E : Externals) (q : Subscribe) (s : State) : Action → Option State
  | .call a => if q.bystander a then some { s with broker := s.broker.act E a } else none
  | .publishDurable message => stepPublishDurable s message
  | .append i => stepAppend s i
  | .fanOut i now => stepFanOut E s i now
  | .appendOther r => if 0 < r.id then some { s with records := s.records ++ [r] } else none
  | .register => stepRegister q s
  | .read => stepRead q s
  | .push now => stepPush E s now

/-- A new broker on a log. -/
def start (config : BrokerConfig) (log : Log) : State where
  broker := .new config
  records := log.records
  nextId := log.nextId
  building := []
  publishing := []
  returned := log.records.filterMap fun r => (message? r).map fun m => ⟨r.id, m⟩
  progress := .waiting

/-- What a step does to the subscribers. -/
def served (E : Externals) (s : State) : Action → List (Nat × Service)
  | .call a => s.broker.services E a
  | .fanOut i now =>
    match s.publishing[i]? with
    | none => []
    | some p => s.broker.publishServices E now none p.offer none none
  | .push now =>
    match s.progress with
    | .replaying subId topic (r :: _) => Broker.replayToServices now topic subId s.broker r
    | _ => []
  | _ => []

/-! ## The subscription in the broker -/

/-- If this is a push to `x`, it finds the buffer below the threshold for slow
consumers. -/
def findsRoom (x : Nat) : Nat × Service → Bool
  | (y, .push _ _ _ sent) => y ≠ x || sent
  | _ => true

theorem sent_of_findsRoom {x now : Nat} {o : Offer} {ttl : Option Nat} {sent : Bool}
    (h : findsRoom x (x, .push now o ttl sent) = true) : sent = true := by
  simpa [findsRoom] using h

/-- The subscription `x` is the one of the SUBSCRIBE, and it is there. -/
structure Subscribe.Joined (q : Subscribe) (b : Broker) (x : Nat) : Prop where
  home : b.subscriptions.lookup x = some ⟨q.topic, none⟩
  connection : x ∈ b.registry.connections q.connId
  subscriber : ∃ sub, b.subscribers.lookup x = some sub ∧ sub.mode = .slot q.slot

section Joined

variable {E : Externals} {q : Subscribe} {b b' : Broker} {x : Nat} {svcs : List (Nat × Service)}

theorem Subscribe.Joined.serves (h : q.Joined b x) (hkeeps : b.registry.Keeps b'.registry x)
    (hserves : Broker.Serves b b' svcs) : q.Joined b' x where
  home := hkeeps.subscriptions.trans h.home
  connection := hkeeps.connections _ h.connection
  subscriber := by
    obtain ⟨sub, hsub, hmode⟩ := h.subscriber
    exact ⟨_, (hserves.subscribers x).trans (by rw [hsub]; rfl),
      (Subscriber.mode_serveAll ..).trans hmode⟩

/-- Other subscriptions come, other connections go, slow consumers are removed. -/
theorem Subscribe.Joined.act (h : q.Joined b x) (hc : b.registry.Consistent) {a : BrokerAction}
    (ha : q.bystander a = true) (hroom : ∀ w ∈ b.services E a, findsRoom x w = true) :
    q.Joined (b.act E a) x := by
  cases hnew : b.newSubscriber a with
  | some sub =>
    have hreg := Broker.act_registers (E := E) hnew
    have hx : x ≠ b.nextSubscriptionId := Nat.ne_of_lt (hc.lt_nextId h.home)
    have hkeeps : b.registry.Keeps (b.act E a).registry x := by
      rcases System.act_cases E (s := ⟨b, ∅⟩) hc a with ⟨⟨ids, hids⟩, -⟩ | ⟨reg, -, hadd, -⟩
      · have hnext : b.nextSubscriptionId + 1 = b.nextSubscriptionId :=
          hreg.nextSubscriptionId.symm.trans (congrArg Registry.nextId hids)
        omega
      · exact hadd ▸ Registry.keeps_add hx
    refine ⟨hkeeps.subscriptions.trans h.home, hkeeps.connections _ h.connection, ?_⟩
    obtain ⟨old, hold, hmode⟩ := h.subscriber
    refine ⟨old, ?_, hmode⟩
    rw [hreg.subscribers, lookup_insert_eq, if_neg hx, hold]
  | none =>
    refine h.serves ?_ (Broker.act_serves E hnew)
    by_cases hgone : ∃ c, a = .unsubscribeConnection c
    · obtain ⟨c, rfl⟩ := hgone
      have hne : c ≠ q.connId := of_decide_eq_true ha
      rw [show b.act E (.unsubscribeConnection c) = b.unsubscribeConnection c from rfl,
        Broker.registry_unsubscribeConnection hc]
      exact Registry.keeps_forget fun hx => hne (hc.connections_disjoint _ _ x hx h.connection)
    · exact (Broker.act_dropsSlow hc hnew fun c heq => hgone ⟨c, heq⟩).keeps
        fun _ _ _ _ hmem => sent_of_findsRoom (hroom _ hmem)

/-- **A running broker offers what is published on the topic to the subscription.** -/
theorem Subscribe.Joined.pushed (h : q.Joined b x) (hc : b.registry.Consistent)
    (hrunning : b.shuttingDown = false) {o : Offer} (ho : o.topic = q.topic) (now : Nat)
    (ttl : Option Nat) (key : Option Bytes) : ∃ now' ttl' sent,
      (x, Service.push now' o ttl' sent) ∈ b.publishServices E now none o ttl key := by
  obtain ⟨sub, hsub, hmode⟩ := h.subscriber
  have hserves := Broker.publishInner_serves (E := E) (b := b) now none o ttl key
  have hledger := (Broker.publishInner_spec E b now o ttl key).ledger x
  rw [Broker.ledger?, Broker.ledger?, hserves.subscribers, hsub] at hledger
  have hoffered := congrArg Ledger.offered (Option.some.inj hledger)
  change (sub.serveAll _).offered = sub.offered ++ _ at hoffered
  rw [Subscriber.offered_serveAll, List.append_cancel_left_eq] at hoffered
  have hcount : (b.targets E o.topic key).count x ≠ 0 := by
    rw [Broker.count_targets hc hrunning, if_pos (ho ▸ h.home)]
    omega
  have hmem := hoffered ▸ List.mem_replicate.mpr ⟨hcount, rfl⟩
  obtain ⟨svc, hsvc, hoffer⟩ := List.mem_filterMap.mp hmem
  have hmem := mem_servicesOf.mp hsvc
  obtain ⟨sub', hsub', hfits⟩ := hserves.fits x svc hmem
  obtain rfl := Option.some.inj (hsub.symm.trans hsub')
  -- nothing is enqueued for a slot
  cases svc with
  | push now' o' ttl' sent =>
    cases hoffer
    exact ⟨now', ttl', sent, hmem⟩
  | enqueue now' o' ttl' => exact absurd hmode (hfits q.slot)
  | dequeue now' delay => cases hoffer
  | ack tag => cases hoffer
  | tick now' retries => cases hoffer

/-- The replay pushes a record of the topic. -/
theorem Subscribe.Joined.replayed (h : q.Joined b x) {r : WalRecord} {m : WalMessageRecord}
    (hm : message? r = some m) (ht : m.topic = q.topic) (now : Nat) : ∃ ttl sent,
      (x, Service.push now ⟨some r.id, m.topic, m.payload, m.qos⟩ ttl sent) ∈
        Broker.replayToServices now q.topic x b r := by
  obtain ⟨sub, hsub, hmode⟩ := h.subscriber
  refine ⟨some b.config.messageTtl, b.hasRoom (.slot q.slot), ?_⟩
  simp [Broker.replayToServices, Broker.deliverServices, hm, hsub, hmode, ht]

end Joined

/-! ## Nothing is missed -/

/-- The message of a publish is in the log, under its id. -/
def Logged (records : List WalRecord) (p : Publication) : Prop :=
  ∃ r ∈ records, r.id = p.walId ∧ message? r = some p.message

/-- It was pushed to the subscription and found room: the encoder of the slot has
been called for it. -/
def Delivered (svcs : List (Nat × Service)) (x : Nat) (p : Publication) : Prop :=
  ∃ now ttl, (x, Service.push now p.offer ttl true) ∈ svcs

/-- It is one of those the SUBSCRIBE asks for. -/
def Subscribe.Wants (q : Subscribe) (p : Publication) : Prop :=
  p.message.topic = q.topic ∧ q.fromOffset ≤ p.walId

namespace Progress

def subId? : Progress → Option Nat
  | .waiting => none
  | .registered subId => some subId
  | .replaying subId _ _ => some subId
  | .finished subId => some subId

/-- The records still to be looked at, once the log was read. -/
def ahead? : Progress → Option (List WalRecord)
  | .replaying _ _ records => some records
  | .finished _ => some []
  | _ => none

end Progress

/-- Once the log was read, a publish that has returned was delivered, or its record
is among those still to be looked at. -/
structure Inv (q : Subscribe) (x : Nat) (s : State) (svcs : List (Nat × Service)) : Prop where
  consistent : s.broker.registry.Consistent
  running : s.broker.shuttingDown = false
  nextId : 0 < s.nextId
  building : ∀ p ∈ s.building, 0 < p.walId
  ids : ∀ r ∈ s.records, 0 < r.id
  publishing : ∀ p ∈ s.publishing, Logged s.records p
  returned : ∀ p ∈ s.returned, Logged s.records p
  joined : s.progress.subId? = some x → q.Joined s.broker x
  topic : ∀ topic records, s.progress = .replaying x topic records → topic = q.topic
  covered : s.progress.subId? = some x → ∀ records ∈ s.progress.ahead?, ∀ p ∈ s.returned,
    q.Wants p → Delivered svcs x p ∨ Logged records p

section Inv

variable {E : Externals} {q : Subscribe} {x : Nat} {s s' : State} {p : Publication}
  {svcs svcs' : List (Nat × Service)}

theorem Logged.append {records : List WalRecord} (h : Logged records p) (more : List WalRecord) :
    Logged (records ++ more) p := by
  obtain ⟨r, hr, hid, hm⟩ := h
  exact ⟨r, List.mem_append_left _ hr, hid, hm⟩

theorem Delivered.append_left (h : Delivered svcs x p) (svcs' : List (Nat × Service)) :
    Delivered (svcs ++ svcs') x p := by
  obtain ⟨now, ttl, hmem⟩ := h
  exact ⟨now, ttl, List.mem_append_left _ hmem⟩

variable {now : Nat}

/-- A push that found room. -/
theorem Delivered.of_push {ttl : Option Nat} {sent : Bool}
    (hmem : (x, Service.push now p.offer ttl sent) ∈ svcs')
    (hroom : ∀ w ∈ svcs', findsRoom x w = true) (svcs : List (Nat × Service)) :
    Delivered (svcs ++ svcs') x p := by
  obtain rfl := sent_of_findsRoom (hroom _ hmem)
  exact ⟨now, ttl, List.mem_append_right _ hmem⟩

theorem Inv.start (q : Subscribe) (x : Nat) (config : BrokerConfig) (log : Log) :
    Inv q x (start config log) [] where
  consistent := (System.Sound.new config true).consistent
  running := rfl
  nextId := log.pos
  building := List.forall_mem_nil _
  ids r hr := (log.bounded r hr).1
  publishing := List.forall_mem_nil _
  returned p hp := by
    obtain ⟨r, hr, hm⟩ := List.mem_filterMap.mp hp
    obtain ⟨m, hmessage, rfl⟩ := Option.map_eq_some_iff.mp hm
    exact ⟨r, hr, rfl, hmessage⟩
  joined h := by cases h
  topic _ _ h := by cases h
  covered h := by cases h

/-- A step on the broker beside the SUBSCRIBE. -/
theorem Inv.broker (h : Inv q x s svcs) (broker : Broker)
    (hc : broker.registry.Consistent) (hrunning : broker.shuttingDown = false)
    (hjoined : q.Joined s.broker x → q.Joined broker x) (svcs' : List (Nat × Service)) :
    Inv q x { s with broker := broker } (svcs ++ svcs') :=
  { h with
    consistent := hc
    running := hrunning
    joined := fun hx => hjoined (h.joined hx)
    covered := fun hx records hrecords p hp hwants =>
      (h.covered hx records hrecords p hp hwants).imp_left (·.append_left svcs') }

theorem Inv.call (h : Inv q x s svcs) {a : BrokerAction} (ha : q.bystander a = true)
    (hroom : ∀ w ∈ s.broker.services E a, findsRoom x w = true) :
    Inv q x { s with broker := s.broker.act E a } (svcs ++ s.broker.services E a) := by
  have hstay : a ≠ .beginShutdown := by
    rintro rfl
    cases ha
  exact h.broker _ (Broker.act_consistent h.consistent a)
    ((Broker.act_shuttingDown hstay).trans h.running) (·.act h.consistent ha hroom) _

/-- The log gets longer. -/
theorem Inv.records (h : Inv q x s svcs) {r : WalRecord} (hr : 0 < r.id) :
    Inv q x { s with records := s.records ++ [r] } svcs :=
  { h with
    ids := fun r' hr' => (List.mem_append.mp hr').elim (h.ids r') fun hr' => by
      rw [List.mem_singleton.mp hr']
      exact hr
    publishing := fun p hp => (h.publishing p hp).append _
    returned := fun p hp => (h.returned p hp).append _ }

theorem Inv.publishDurable {message : WalMessageRecord} (h : Inv q x s svcs)
    (hs : stepPublishDurable s message = some s') : Inv q x s' svcs := by
  unfold stepPublishDurable at hs
  split at hs
  · cases hs
    exact h
  split at hs
  · cases hs
    exact h
  split at hs
  · split at hs
    · cases hs
      exact { h with nextId := Nat.succ_pos _ }
    · cases hs
      exact { h with
        nextId := Nat.succ_pos _
        building := forall_mem_concat h.building h.nextId }
  · cases hs

theorem Inv.append {i : Nat} (h : Inv q x s svcs) (hs : stepAppend s i = some s') :
    Inv q x s' svcs := by
  unfold stepAppend at hs
  split at hs
  · cases hs
  rename_i p hp
  split at hs
  · cases hs
  rename_i payload hencode
  cases hs
  have hlonger := h.records (r := ⟨p.walId, payload⟩) (h.building p (List.mem_of_getElem? hp))
  exact { hlonger with
    building := fun p' hp' => h.building p' (List.mem_of_mem_eraseIdx hp')
    publishing := forall_mem_concat hlonger.publishing
      ⟨_, List.mem_append_right _ (List.mem_singleton_self _), rfl, message?_of_encode hencode⟩ }

/-- A fan-out pushes to the subscription if it is there, and if it is not, the log
is still to be read. -/
theorem Inv.fanOut {i : Nat} (h : Inv q x s svcs)
    (hroom : ∀ w ∈ served E s (.fanOut i now), findsRoom x w = true)
    (hs : stepFanOut E s i now = some s') : Inv q x s' (svcs ++ served E s (.fanOut i now)) := by
  unfold stepFanOut at hs
  simp only [served] at hroom ⊢
  split at hs
  · cases hs
  rename_i p hp
  cases hs
  rw [hp] at hroom
  have hlogged := h.publishing p (List.mem_of_getElem? hp)
  have hbroker := h.call (a := .publish now none p.offer none none) rfl hroom
  refine { hbroker with
    publishing := fun p' hp' => h.publishing p' (List.mem_of_mem_eraseIdx hp')
    returned := forall_mem_concat h.returned hlogged
    covered := fun hx records hrecords => forall_mem_concat
      (hbroker.covered hx records hrecords) fun hwants => ?_ }
  obtain ⟨now', ttl, sent, hmem⟩ :=
    (h.joined hx).pushed (E := E) h.consistent h.running (o := p.offer) hwants.1 now none none
  exact .inl (.of_push hmem hroom _)

theorem Inv.register (h : Inv q x s svcs) (hs : stepRegister q s = some s') :
    Inv q x s' svcs := by
  unfold stepRegister at hs
  split at hs
  · cases hs
    have hadd := Broker.registry_subscribe s.broker (Net.clientIdOf q.connId) q.topic q.qos
      (some q.connId) (.slot q.slot) none
    have hconnection : s.broker.nextSubscriptionId ∈
        (s.broker.registry.add ⟨q.topic, none⟩ (some q.connId) none).connections q.connId := by
      show _ ∈ if some q.connId = some q.connId then _ ++ [_] else _
      rw [if_pos rfl]
      exact List.mem_append_right _ (List.mem_singleton_self _)
    refine { h with
      consistent := hadd ▸ h.consistent.add ⟨q.topic, none⟩ (some q.connId) none
      running := h.running
      joined := fun hx => ?_
      topic := fun _ _ heq => by cases heq
      covered := fun _ _ hrecords => by cases hrecords }
    obtain rfl := Option.some.inj hx
    exact ⟨AList.lookup_insert _, hadd ▸ hconnection, _, AList.lookup_insert _, rfl⟩
  · cases hs

/-- What the log holds when it is read is either returned or comes later. -/
theorem Inv.read (h : Inv q x s svcs) (hs : stepRead q s = some s') : Inv q x s' svcs := by
  unfold stepRead at hs
  split at hs
  · rename_i subId hprogress
    have hjoined : subId = x → q.Joined s.broker x := by
      rintro rfl
      exact h.joined (by rw [hprogress]; rfl)
    split at hs
    · rename_i hgone
      cases hs
      -- with the subscription there the log is read
      have hne : subId ≠ x := by
        rintro rfl
        cases hgone.symm.trans (hjoined rfl).home
      exact { h with
        joined := fun hx => hjoined (Option.some.inj hx)
        topic := fun _ _ heq => by cases heq
        covered := fun hx => absurd (Option.some.inj hx) hne }
    · rename_i subRef hhome
      cases hs
      refine { h with
        joined := fun hx => hjoined (Option.some.inj hx)
        topic := ?_
        covered := ?_ }
      · intro topic records heq
        cases heq
        rw [Option.some.inj (hhome.symm.trans (hjoined rfl).home)]
      · intro hx records hrecords p hp hwants
        cases hrecords
        obtain ⟨r, hr, hid, hm⟩ := h.returned p hp
        refine .inr ⟨r, List.mem_filter.mpr ⟨hr, decide_eq_true ?_⟩, hid, hm⟩
        have hpos := h.ids r hr
        have hfrom := hwants.2
        split <;> omega
  · cases hs

/-- The replay looks at a record. -/
theorem Inv.next {subId : Nat} {topic : String} {r : WalRecord} {records : List WalRecord}
    (h : Inv q x s svcs) (hprogress : s.progress = .replaying subId topic (r :: records))
    (hroom : ∀ w ∈ Broker.replayToServices now topic subId s.broker r, findsRoom x w = true) :
    Inv q x
      { s with
        broker := Broker.replayTo E now topic subId s.broker r
        progress := .replaying subId topic records }
      (svcs ++ Broker.replayToServices now topic subId s.broker r) := by
  have hserves := Broker.replayTo_serves (E := E) (b := s.broker) now topic subId r
  have hregistry : s.broker.registry.Keeps
      (Broker.replayTo E now topic subId s.broker r).registry x := by
    rw [Broker.registry_replayTo]
    exact ⟨rfl, fun _ => id⟩
  have hrunning : (Broker.replayTo E now topic subId s.broker r).shuttingDown = false :=
    (congrArg (fun s => s.2.2) (Broker.replayTo_standing ..)).trans h.running
  have hbroker := h.broker (Broker.replayTo E now topic subId s.broker r)
    (by rw [Broker.registry_replayTo]; exact h.consistent) hrunning
    (·.serves hregistry hserves) (Broker.replayToServices now topic subId s.broker r)
  have hsame : s.progress.subId? = some subId := by rw [hprogress]; rfl
  refine { hbroker with
    joined := fun hx => hbroker.joined (hsame.trans hx)
    topic := ?_
    covered := ?_ }
  · intro topic' records' heq
    cases heq
    exact h.topic topic _ hprogress
  · intro hx records' hrecords p hp hwants
    cases hrecords
    obtain rfl : subId = x := Option.some.inj hx
    obtain rfl := h.topic topic _ hprogress
    rcases hbroker.covered hsame (r :: records) (by rw [hprogress]; rfl) p hp hwants with
      hdone | ⟨r', hr', hid, hm⟩
    · exact .inl hdone
    rcases List.mem_cons.mp hr' with rfl | hr'
    · obtain ⟨ttl, sent, hmem⟩ := (h.joined hsame).replayed hm hwants.1 now
      rw [hid] at hmem
      exact .inl (.of_push hmem hroom _)
    · exact .inr ⟨r', hr', hid, hm⟩

theorem Inv.push (h : Inv q x s svcs) (hroom : ∀ w ∈ served E s (.push now), findsRoom x w = true)
    (hs : stepPush E s now = some s') : Inv q x s' (svcs ++ served E s (.push now)) := by
  unfold stepPush at hs
  simp only [served] at hroom ⊢
  split at hs
  · rename_i subId topic hprogress
    cases hs
    simp only [hprogress, List.append_nil]
    have hsame : s.progress.subId? = some subId ∧ s.progress.ahead? = some [] := by
      rw [hprogress]
      exact ⟨rfl, rfl⟩
    exact { h with
      joined := fun hx => h.joined (hsame.1.trans hx)
      topic := fun _ _ heq => by cases heq
      covered := fun hx records hrecords => h.covered (hsame.1.trans hx) records
        (hsame.2 ▸ hrecords) }
  · rename_i subId topic r records hprogress
    cases hs
    rw [hprogress] at hroom
    simp only [hprogress]
    exact h.next hprogress hroom
  · cases hs

theorem Inv.step {a : Action} (h : Inv q x s svcs)
    (hroom : ∀ w ∈ served E s a, findsRoom x w = true)
    (hs : OffsetReplay.step E q s a = some s') : Inv q x s' (svcs ++ served E s a) := by
  have hquiet : Inv q x s' svcs → served E s a = [] → Inv q x s' (svcs ++ served E s a) := by
    intro h hnone
    rwa [hnone, List.append_nil]
  cases a with
  | call a =>
    obtain ⟨ha, ⟨⟩⟩ := Option.ite_none_right_eq_some.mp hs
    exact h.call ha hroom
  | publishDurable message => exact hquiet (h.publishDurable hs) rfl
  | append i => exact hquiet (h.append hs) rfl
  | fanOut i now => exact h.fanOut hroom hs
  | appendOther r =>
    obtain ⟨hr, ⟨⟩⟩ := Option.ite_none_right_eq_some.mp hs
    exact hquiet (h.records hr) rfl
  | register => exact hquiet (h.register hs) rfl
  | read => exact hquiet (h.read hs) rfl
  | push now => exact h.push hroom hs

end Inv

/-! ## The handler -/

section Handler

variable {E : Externals} {q : Subscribe}

theorem run_push (s : State) (now subId : Nat) (topic : String) (records : List WalRecord) :
    run (step E q) { s with progress := .replaying subId topic records }
        (List.replicate (records.length + 1) (.push now)) =
      some { s with
        broker := records.foldl (Broker.replayTo E now topic subId) s.broker
        progress := .finished subId } := by
  induction records generalizing s with
  | nil => rfl
  | cons r records ih =>
    rw [List.length_cons, List.replicate_succ]
    exact ih { s with broker := Broker.replayTo E now topic subId s.broker r }

/-- **Without other steps in between this is `handle_subscribe_slot`.** -/
theorem run_handleSubscribeSlot {frame : Net.Frame} {payload : Net.SubscribePayload}
    (hdecode : Net.SubscribePayload.decode frame.payload = .ok payload)
    (hcheck : Net.checkSubscribe payload = .ok q.qos) (htopic : payload.topic = q.topic)
    (hgroup : payload.group = none) (hoffset : payload.fromOffset = some q.fromOffset)
    {s : State} {log : Log} (hs : s.progress = .waiting) (hrecords : s.records = log.records)
    (now : Nat) : ∃ n, run (step E q) s (.register :: .read :: List.replicate n (.push now)) =
      some { s with
        broker := (Net.handleSubscribeSlot E now log s.broker q.connId frame q.slot).1
        progress := .finished s.broker.nextSubscriptionId } := by
  obtain ⟨b, hb⟩ : ∃ b, b = (s.broker.subscribeWithSlot (Net.clientIdOf q.connId) q.topic q.qos
    q.connId q.slot).1 := ⟨_, rfl⟩
  have hhome : b.subscriptions.lookup s.broker.nextSubscriptionId = some ⟨q.topic, none⟩ := by
    rw [hb]
    exact AList.lookup_insert _
  have hregister : step E q s .register =
      some { s with broker := b, progress := .registered s.broker.nextSubscriptionId } := by
    simp only [step, stepRegister, hs, hb]
    rfl
  have hread : step E q
      { s with broker := b, progress := .registered s.broker.nextSubscriptionId } .read =
      some { s with
        broker := b
        progress := .replaying s.broker.nextSubscriptionId q.topic
          (log.iterateFrom (if q.fromOffset = 0 then 1 else q.fromOffset)) } := by
    simp only [step, stepRead, hhome, hrecords]
    rfl
  refine ⟨_, run_cons.mpr ⟨_, hregister, run_cons.mpr ⟨_, hread,
    (run_push { s with broker := b } now ..).trans ?_⟩⟩⟩
  rw [Net.handleSubscribeSlot_offset hdecode hcheck hgroup hoffset, htopic, ← hb,
    Broker.replayToSubscriber, hhome]

end Handler

/-! ## The result -/

end BlipMQ.Daemon.OffsetReplay
