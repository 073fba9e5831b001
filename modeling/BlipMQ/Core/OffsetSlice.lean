import BlipMQ.Core.Kept
import BlipMQ.Core.OnDisk
import BlipMQ.Core.Tags

/-!
# Broker — what an offset replay delivers

`replay_to_subscriber` reads the log from an offset on and pushes the
messages of the subscriber's topic, one after the other. It counts them, and
returns the count. This module says what it does to a subscriber on a slot
while the buffer of the slot has room: the messages of the topic are encoded
in the order of the log, those of QoS 1 are put in flight under the next tags,
and nothing else in the broker changes.
-/

namespace BlipMQ.Core

open Wal (WalError WalRecord)

/-! ## The call and its answer -/

namespace Broker

/-- One turn of the loop, with the number of deliveries so far. -/
def replayCounted (E : Externals) (now : Nat) (topic : String) (subId : Nat) (s : Broker × Nat)
    (r : WalRecord) : Broker × Nat :=
  match message? r, s.1.subscribers.lookup subId with
  | some m, some sub =>
    if m.topic = topic ∧ sub.mode ≠ .poll then
      let out := s.1.deliver E now ⟨some r.id, topic, m.payload, m.qos⟩
        (some s.1.config.messageTtl) subId
      -- a full buffer drops the message and the loop goes on
      (out.1, if out.2 then s.2 else min (s.2 + 1) (2 ^ 64 - 1))
    else s
  | _, _ => s

/-- `replay_to_subscriber` with its answer; `iterateFrom` is that of the log. -/
def replayToSubscriberCounted (E : Externals) (now : Nat)
    (iterateFrom : Nat → Except WalError (List WalRecord)) (b : Broker) (subId fromOffset : Nat) :
    Broker × Except WalError Nat :=
  if b.hasWal then
    match b.subscriptions.lookup subId with
    | none => (b, .ok 0)
    | some subRef =>
      match iterateFrom (if fromOffset = 0 then 1 else fromOffset) with
      | .error e => (b, .error e)
      | .ok records =>
        let out := records.foldl (replayCounted E now subRef.topic subId) (b, 0)
        (out.1, .ok out.2)
  else (b, .ok 0)

section Counted

variable {E : Externals} {b : Broker}

theorem replayCounted_fst (now : Nat) (topic : String) (subId : Nat) (s : Broker × Nat)
    (r : WalRecord) :
    (replayCounted E now topic subId s r).1 = replayTo E now topic subId s.1 r := by
  unfold replayCounted replayTo
  cases message? r with
  | none => rfl
  | some m =>
    cases s.1.subscribers.lookup subId with
    | none => rfl
    | some sub =>
      dsimp only
      split <;> rfl

theorem foldl_replayCounted_fst (now : Nat) (topic : String) (subId : Nat)
    (records : List WalRecord) (s : Broker × Nat) :
    (records.foldl (replayCounted E now topic subId) s).1 =
      records.foldl (replayTo E now topic subId) s.1 := by
  induction records generalizing s with
  | nil => rfl
  | cons r records ih => rw [List.foldl_cons, ih, replayCounted_fst, List.foldl_cons]

/-- On a log on disk the call does what `replayToSubscriber` does. -/
theorem replayToSubscriberCounted_onDisk {index : Wal.Index} {dir : Dir Bytes} {log : Log}
    (hdisk : OnDisk E.crc32 index dir log) (hwal : b.hasWal = true) (now subId fromOffset : Nat) :
    (b.replayToSubscriberCounted E now (Wal.iterateFrom E.crc32 index dir) subId fromOffset).1 =
      b.replayToSubscriber E now log subId fromOffset := by
  unfold replayToSubscriberCounted replayToSubscriber
  rw [if_pos hwal, hdisk.iterateFrom]
  cases b.subscriptions.lookup subId with
  | none => rfl
  | some subRef => exact foldl_replayCounted_fst ..

end Counted

end Broker

/-! ## What is asked for -/

/-- The messages of a topic among the records, from an id on. -/
def logSlice (topic : String) (fromId : Nat) (records : List WalRecord) : List Offer :=
  records.filterMap fun r => (message? r).bind fun m =>
    if m.topic = topic ∧ fromId ≤ r.id then some ⟨some r.id, topic, m.payload, m.qos⟩ else none

theorem length_logSlice_le (topic : String) (fromId : Nat) (records : List WalRecord) :
    (logSlice topic fromId records).length ≤ records.length :=
  List.length_filterMap_le ..

/-- Messages with the tags the counter gives them, from `next` on. -/
def tagged : Nat → List Offer → List (Nat × Offer)
  | _, [] => []
  | next, o :: os => (next, o) :: tagged ((next + 1) % 2 ^ 64) os

variable {next : Nat}

/-- The tags are consecutive values of the counter. -/
theorem tags_tagged (h : next < 2 ^ 64) (os : List Offer) :
    (tagged next os).map Prod.fst = (List.range os.length).map fun i => (next + i) % 2 ^ 64 := by
  induction os generalizing next with
  | nil => rfl
  | cons o os ih =>
    rw [tagged, List.map_cons, ih (Nat.mod_lt _ (by decide)), List.length_cons,
      List.range_succ_eq_map, List.map_cons, List.map_map]
    refine List.cons_eq_cons.mpr ⟨(Nat.mod_eq_of_lt h).symm, List.map_congr_left fun i _ => ?_⟩
    rw [Nat.mod_add_mod, Function.comp_apply, Nat.succ_eq_one_add, Nat.add_assoc]

variable {os : List Offer}

theorem nodup_tags (h : next < 2 ^ 64) (hlen : os.length ≤ 2 ^ 64) :
    ((tagged next os).map Prod.fst).Nodup := by
  rw [tags_tagged h]
  refine List.Nodup.map_on (fun i hi j hj heq => ?_) List.nodup_range
  rw [List.mem_range] at hi hj
  omega

theorem tagged_prefix {os' : List Offer} (h : os <+: os') (next : Nat) :
    tagged next os <+: tagged next os' := by
  obtain ⟨rest, rfl⟩ := h
  induction os generalizing next with
  | nil => exact List.nil_prefix
  | cons o os ih => exact List.cons_prefix_cons.mpr ⟨rfl, ih _⟩

/-- What is put in flight for a message pushed under a tag: nothing at QoS 0. -/
def pushedEntry (now : Nat) (ttl : Option Nat) (p : Nat × Offer) : Option QueueEntry :=
  if p.2.qos = .atLeastOnce then
    some ⟨p.1, p.2.payload, .atLeastOnce, p.2.walId, now, ttl, 1, now⟩
  else none

/-- The entries for messages pushed from `next` on. -/
def pushedEntries (now : Nat) (ttl : Option Nat) (next : Nat) (os : List Offer) :
    List QueueEntry :=
  (tagged next os).filterMap (pushedEntry now ttl)

section Entries

variable {now next : Nat} {ttl : Option Nat} {o : Offer} {os : List Offer}

theorem pushedEntries_cons : pushedEntries now ttl next (o :: os) =
    (pushedEntry now ttl (next, o)).toList ++
      pushedEntries now ttl ((next + 1) % 2 ^ 64) os := by
  rw [pushedEntries, tagged, List.filterMap_cons]
  cases pushedEntry now ttl (next, o) <;> rfl

/-- They carry the tags and the WAL ids of the QoS1 messages. -/
theorem walIds_pushedEntries (now : Nat) (ttl : Option Nat) (next : Nat) (os : List Offer) :
    (pushedEntries now ttl next os).map QueueEntry.walId =
      (os.filter (·.qos = .atLeastOnce)).map Offer.walId := by
  induction os generalizing next with
  | nil => rfl
  | cons o os ih =>
    rw [pushedEntries_cons, List.map_append, ih, List.filter_cons, pushedEntry]
    by_cases hqos : o.qos = .atLeastOnce
    · rw [if_pos hqos, if_pos (decide_eq_true hqos)]
      rfl
    · rw [if_neg hqos, if_neg (by simpa using hqos)]
      rfl

theorem tag_of_pushedEntry {p : Nat × Offer} {e : QueueEntry} (h : pushedEntry now ttl p = some e) :
    e.tag = p.1 := by
  unfold pushedEntry at h
  split at h
  · cases h
    rfl
  · cases h

theorem tags_pushedEntries (now : Nat) (ttl : Option Nat) (next : Nat) (os : List Offer) :
    ((pushedEntries now ttl next os).map QueueEntry.tag).Sublist
      ((tagged next os).map Prod.fst) := by
  induction os generalizing next with
  | nil => exact List.Sublist.refl _
  | cons o os ih =>
    rw [pushedEntries_cons, tagged, List.map_append, List.map_cons]
    cases hentry : pushedEntry now ttl (next, o) with
    | none => exact (ih _).cons _
    | some e =>
      have htag : e.tag = next := tag_of_pushedEntry hentry
      rw [Option.toList_some, List.map_singleton, htag]
      exact (ih _).cons_cons _

theorem nodup_tags_pushedEntries (now : Nat) (ttl : Option Nat) (h : next < 2 ^ 64)
    (hlen : os.length ≤ 2 ^ 64) :
    ((pushedEntries now ttl next os).map QueueEntry.tag).Nodup :=
  (tags_pushedEntries now ttl next os).nodup (nodup_tags h hlen)

end Entries

/-! ## The subscriber -/

/-- What pushing the messages one after the other makes of a subscriber: the
counter moves, and the QoS1 messages are in flight. -/
structure Pushed (now : Nat) (ttl : Option Nat) (sub sub' : Subscriber) (os : List Offer) :
    Prop where
  /-- Of the queue only `inflight` and the expiration heap may differ. -/
  rest : ∃ inflight heap, sub' = { sub with
    pushNextTag := (sub.pushNextTag + os.length) % 2 ^ 64
    queue := { sub.queue with inflight := inflight, expirationHeap := heap }
    offered := sub.offered ++ os }
  added : ∀ e ∈ pushedEntries now ttl sub.pushNextTag os,
    sub'.queue.inflight.lookup e.tag = some e
  kept : ∀ t, t ∉ (pushedEntries now ttl sub.pushNextTag os).map QueueEntry.tag →
    sub'.queue.inflight.lookup t = sub.queue.inflight.lookup t

namespace Subscriber

variable {sub : Subscriber} {now : Nat} {ttl : Option Nat}

def pushAll (sub : Subscriber) (now : Nat) (ttl : Option Nat) (os : List Offer) : Subscriber :=
  os.foldl (fun sub o => sub.push now o ttl true) sub

theorem inflight_push_sent (sub : Subscriber) (now : Nat) (o : Offer) (ttl : Option Nat)
    (t : Nat) : (sub.push now o ttl true).queue.inflight.lookup t =
      ((pushedEntry now ttl (sub.pushNextTag, o)).filter (·.tag = t)).or
        (sub.queue.inflight.lookup t) := by
  by_cases hqos : o.qos = .atLeastOnce
  · have hinflight : (sub.push now o ttl true).queue.inflight =
        sub.queue.inflight.insert sub.pushNextTag
          ⟨sub.pushNextTag, o.payload, .atLeastOnce, o.walId, now, ttl, 1, now⟩ := by
      simp only [push, if_pos hqos]
      rfl
    rw [hinflight, lookup_insert_eq, pushedEntry, if_pos hqos]
    by_cases ht : t = sub.pushNextTag
    · rw [if_pos ht, Option.filter_some, if_pos (decide_eq_true ht.symm), Option.some_or]
    · rw [if_neg ht, Option.filter_some, if_neg (by simpa using Ne.symm ht), Option.none_or]
  · have hinflight : (sub.push now o ttl true).queue = sub.queue := if_neg hqos
    rw [hinflight, pushedEntry, if_neg hqos]
    rfl

theorem pushed_pushAll (hnext : sub.pushNextTag < 2 ^ 64) {os : List Offer}
    (hlen : os.length ≤ 2 ^ 64) : Pushed now ttl sub (sub.pushAll now ttl os) os := by
  induction os generalizing sub with
  | nil =>
    refine ⟨⟨sub.queue.inflight, sub.queue.expirationHeap, ?_⟩, List.forall_mem_nil _,
      fun _ _ => rfl⟩
    rw [List.length_nil, Nat.add_zero, Nat.mod_eq_of_lt hnext, List.append_nil]
    rfl
  | cons o os ih =>
    have hnodup := nodup_tags_pushedEntries now ttl hnext hlen
    rw [pushedEntries_cons, List.map_append] at hnodup
    rw [List.length_cons] at hlen
    have hpushed := @ih (sub.push now o ttl true) (Nat.mod_lt _ (by decide)) (by omega)
    refine ⟨?_, ?_, ?_⟩
    · obtain ⟨inflight, heap, hrest⟩ := hpushed.rest
      obtain ⟨_, _, hqueue⟩ := push_queue sub now o ttl true
      have hcounter : ((sub.pushNextTag + 1) % 2 ^ 64 + os.length) % 2 ^ 64 =
          (sub.pushNextTag + (o :: os).length) % 2 ^ 64 := by
        rw [Nat.mod_add_mod, List.length_cons, Nat.add_assoc, Nat.add_comm 1]
      have hoffered : sub.offered ++ [o] ++ os = sub.offered ++ o :: os := by
        rw [List.append_assoc, List.singleton_append]
      refine ⟨inflight, heap, hrest.trans ?_⟩
      rw [hqueue, ← hcounter, ← hoffered]
      rfl
    · intro e he
      rw [pushedEntries_cons] at he
      rcases List.mem_append.mp he with he | he
      · -- its tag is not given again, so it stays
        have hfirst := Option.mem_toList.mp he
        have hother : e.tag ∉ (pushedEntries now ttl ((sub.pushNextTag + 1) % 2 ^ 64) os).map
            QueueEntry.tag := by
          intro hmem
          exact List.disjoint_of_nodup_append hnodup (List.mem_map_of_mem he) hmem
        rw [pushAll, List.foldl_cons]
        refine (hpushed.kept e.tag hother).trans ?_
        rw [inflight_push_sent, show pushedEntry now ttl (sub.pushNextTag, o) = some e from hfirst]
        simp
      · exact hpushed.added e he
    · intro t ht
      rw [pushedEntries_cons, List.map_append, List.mem_append, not_or] at ht
      refine (hpushed.kept t ht.2).trans ?_
      rw [inflight_push_sent]
      cases hentry : pushedEntry now ttl (sub.pushNextTag, o) with
      | none => rfl
      | some e =>
        rw [hentry] at ht
        have hne : e.tag ≠ t := fun heq => ht.1 (by simp [heq])
        rw [Option.filter_some, if_neg (by simpa using hne), Option.none_or]

end Subscriber

/-! ## The loop -/

/-- What the encoder makes of a buffer for a message pushed under a tag; at QoS 0 the
tag on the wire is 0. -/
def encodeInto (E : Externals) (buf : Bytes) (p : Nat × Offer) : Bytes :=
  E.encoder buf p.2.qos (if p.2.qos = .atLeastOnce then p.1 else 0) p.2.topic p.2.payload

namespace Broker

/-- The buffer has room before each of the messages. -/
def StaysBelow (E : Externals) (b : Broker) (slot next : Nat) (os : List Offer) : Prop :=
  ∀ done, done <+: os → done ≠ os →
    ((tagged next done).foldl (encodeInto E) (b.buffer slot)).length <
      b.config.slowConsumerBufferBytes

/-- The messages are pushed to one subscriber on a slot, and nothing else happens. -/
structure PushesTo (E : Externals) (now x slot : Nat) (b b' : Broker) (sub : Subscriber)
    (os : List Offer) : Prop where
  frame : ∃ subscribers slots, b' = { b with subscribers := subscribers, slots := slots }
  subscriber : b'.subscribers.lookup x = some (sub.pushAll now (some b.config.messageTtl) os)
  otherSubscribers : ∀ y, y ≠ x → b'.subscribers.lookup y = b.subscribers.lookup y
  buffer : b'.buffer slot = (tagged sub.pushNextTag os).foldl (encodeInto E) (b.buffer slot)
  otherSlots : ∀ n, n ≠ slot → b'.slots.lookup n = b.slots.lookup n

section Loop

variable {E : Externals} {b b' : Broker} {sub : Subscriber} {now x slot : Nat} {o : Offer}
  {os : List Offer} {topic : String} {r : WalRecord} {m : WalMessageRecord}

theorem PushesTo.refl (hx : b.subscribers.lookup x = some sub) :
    PushesTo E now x slot b b sub [] :=
  ⟨⟨_, _, rfl⟩, hx, fun _ _ => rfl, rfl, fun _ _ => rfl⟩

/-- The broker after a push into the buffer. -/
def pushedInto (E : Externals) (now x slot : Nat) (b : Broker) (sub : Subscriber) (o : Offer) :
    Broker :=
  { b with
    subscribers := b.subscribers.insert x (sub.push now o (some b.config.messageTtl) true)
    slots := b.slots.insert slot (encodeInto E (b.buffer slot) (sub.pushNextTag, o)) }

theorem buffer_pushedInto : (pushedInto E now x slot b sub o).buffer slot =
    encodeInto E (b.buffer slot) (sub.pushNextTag, o) := by
  rw [Broker.buffer, pushedInto, AList.lookup_insert]
  rfl

theorem PushesTo.cons (h : PushesTo E now x slot (pushedInto E now x slot b sub o) b'
    (sub.push now o (some b.config.messageTtl) true) os) :
    PushesTo E now x slot b b' sub (o :: os) := by
  obtain ⟨subscribers, slots, hframe⟩ := h.frame
  refine ⟨⟨subscribers, slots, hframe⟩, h.subscriber, ?_, ?_, ?_⟩
  · intro y hy
    exact (h.otherSubscribers y hy).trans (AList.lookup_insert_ne hy)
  · rw [h.buffer, buffer_pushedInto, tagged, List.foldl_cons]
    rfl
  · intro n hn
    exact (h.otherSlots n hn).trans (AList.lookup_insert_ne hn)

theorem StaysBelow.tail (h : StaysBelow E b slot sub.pushNextTag (o :: os)) :
    StaysBelow E (pushedInto E now x slot b sub o) slot
      (sub.push now o (some b.config.messageTtl) true).pushNextTag os := by
  intro done hdone hne
  rw [buffer_pushedInto]
  exact h (o :: done) (List.cons_prefix_cons.mpr ⟨rfl, hdone⟩)
    fun heq => hne (List.cons.inj heq).2

theorem replayCounted_skip (hm : ∀ m, message? r = some m → m.topic ≠ topic) (s : Broker × Nat) :
    replayCounted E now topic x s r = s := by
  unfold replayCounted
  cases h : message? r with
  | none => rfl
  | some m =>
    cases s.1.subscribers.lookup x with
    | none => rfl
    | some sub => exact if_neg fun hand => hm m h hand.1

theorem replayCounted_push (hm : message? r = some m) (htopic : m.topic = topic)
    (hx : b.subscribers.lookup x = some sub) (hmode : sub.mode = .slot slot)
    (hroom : (b.buffer slot).length < b.config.slowConsumerBufferBytes) (n : Nat) :
    replayCounted E now topic x (b, n) r =
      (pushedInto E now x slot b sub ⟨some r.id, topic, m.payload, m.qos⟩,
        min (n + 1) (2 ^ 64 - 1)) := by
  unfold replayCounted
  rw [hm]
  dsimp only
  rw [hx]
  dsimp only
  rw [if_pos ⟨htopic, by simp [hmode]⟩, deliver_slot hx hmode (decide_eq_true hroom)]
  rfl

/-- **What the loop does**: it pushes the messages of the topic, and counts them. -/
theorem foldl_replayCounted (now : Nat) {fromId : Nat} {records : List WalRecord}
    (hids : ∀ r ∈ records, fromId ≤ r.id) (hx : b.subscribers.lookup x = some sub)
    (hmode : sub.mode = .slot slot)
    (hbelow : StaysBelow E b slot sub.pushNextTag (logSlice topic fromId records)) {n : Nat}
    (hcount : n + (logSlice topic fromId records).length < 2 ^ 64) :
    let out := records.foldl (replayCounted E now topic x) (b, n)
    PushesTo E now x slot b out.1 sub (logSlice topic fromId records) ∧
      out.2 = n + (logSlice topic fromId records).length := by
  induction records generalizing b sub n with
  | nil => exact ⟨.refl hx, rfl⟩
  | cons r records ih =>
    have hrest : ∀ r ∈ records, fromId ≤ r.id := fun r' hr' => hids r' (List.mem_cons_of_mem r hr')
    have hskip (hm : ∀ m, message? r = some m → m.topic ≠ topic) :
        logSlice topic fromId (r :: records) = logSlice topic fromId records := by
      refine List.filterMap_cons_none ?_
      cases h : message? r with
      | none => rfl
      | some m => exact if_neg fun hand => hm m h hand.1
    by_cases hm : ∃ m, message? r = some m ∧ m.topic = topic
    · obtain ⟨m, hm, htopic⟩ := hm
      have hslice : logSlice topic fromId (r :: records) =
          ⟨some r.id, topic, m.payload, m.qos⟩ :: logSlice topic fromId records := by
        refine List.filterMap_cons_some ?_
        rw [hm]
        exact if_pos ⟨htopic, hids r List.mem_cons_self⟩
      rw [hslice] at hbelow hcount ⊢
      rw [List.length_cons] at hcount
      have hroom := hbelow [] (List.nil_prefix) (by simp)
      obtain ⟨hpushes, hcounted⟩ := ih (n := n + 1) hrest (AList.lookup_insert _) (by exact hmode)
        hbelow.tail (by omega)
      rw [List.foldl_cons, replayCounted_push hm htopic hx hmode hroom,
        Nat.min_eq_left (by omega)]
      refine ⟨hpushes.cons, hcounted.trans ?_⟩
      rw [List.length_cons]
      omega
    · have hother : ∀ m, message? r = some m → m.topic ≠ topic :=
        fun m h heq => hm ⟨m, h, heq⟩
      rw [hskip hother] at hbelow hcount ⊢
      rw [List.foldl_cons, replayCounted_skip hother]
      exact ih hrest hx hmode hbelow hcount

end Loop

end Broker

theorem foldl_encodeInto {E : Externals} (h : E.Appends) (ps : List (Nat × Offer)) (buf : Bytes) :
    ps.foldl (encodeInto E) buf = buf ++ ps.flatMap (encodeInto E []) := by
  induction ps generalizing buf with
  | nil => exact (List.append_nil buf).symm
  | cons p ps ih =>
    rw [List.foldl_cons, ih, encodeInto, h, List.append_assoc, List.flatMap_cons]
    rfl

/-- With an encoder that appends, the buffer is longest at the end. -/
theorem Broker.StaysBelow.of_appends {E : Externals} {b : Broker} {slot : Nat} (h : E.Appends)
    (hend : ((tagged next os).foldl (encodeInto E) (b.buffer slot)).length <
      b.config.slowConsumerBufferBytes) : b.StaysBelow E slot next os := by
  intro done hdone _
  obtain ⟨more, hmore⟩ := tagged_prefix hdone next
  rw [foldl_encodeInto h, ← hmore, List.flatMap_append, ← List.append_assoc,
    List.length_append] at hend
  rw [foldl_encodeInto h]
  omega

/-- The counter goes on behind the tags in flight. -/
theorem Subscriber.PushTagged.fresh {sub : Subscriber} (h : sub.PushTagged)
    (hlt : sub.offered.length + os.length < 2 ^ 64) {now : Nat} {ttl : Option Nat}
    {e : QueueEntry} (he : e ∈ pushedEntries now ttl sub.pushNextTag os) :
    sub.queue.inflight.lookup e.tag = none := by
  have hmem := (tags_pushedEntries now ttl sub.pushNextTag os).subset (List.mem_map_of_mem he)
  rw [tags_tagged (by rw [h.pushNextTag]; exact Nat.mod_lt _ (by decide))] at hmem
  obtain ⟨i, hi, htag⟩ := List.mem_map.mp hmem
  rw [List.mem_range] at hi
  rw [h.nextTag_eq (by omega), Nat.mod_eq_of_lt (by omega)] at htag
  refine Option.eq_none_iff_forall_ne_some.mpr fun e' he' => ?_
  have hle := (h.inflight e.tag e' he').2
  omega

/-! ## The slice -/

/-- **An offset replay delivers the slice that was asked for.** The messages of the
topic from the offset on are encoded into the slot, in the order of the log,
and their number is returned; the QoS1 ones are in flight, with the ids of their
records and under distinct tags, which were free. Beside the subscriber and the
buffer nothing changes. -/
theorem System.offset_replay_delivers_slice (E : Externals) (config : BrokerConfig)
    (acts : List BrokerAction) (index : Wal.Index) (dir : Dir Bytes)
    (now x fromOffset slot : Nat) (home : SubscriptionRef) (sub : Subscriber)
    (records : List WalRecord)
    (hread : Wal.iterateFrom E.crc32 index dir (max fromOffset 1) = .ok records)
    (hlen : records.length < 2 ^ 64)
    (hhome : ((System.new config true).run E acts).broker.subscriptions.lookup x = some home)
    (hsub : ((System.new config true).run E acts).broker.subscribers.lookup x = some sub)
    (hslot : sub.mode = .slot slot)
    (hbelow : ((System.new config true).run E acts).broker.StaysBelow E slot sub.pushNextTag
      (logSlice home.topic (max fromOffset 1) records)) :
    let b := ((System.new config true).run E acts).broker
    let out := b.replayToSubscriberCounted E now (Wal.iterateFrom E.crc32 index dir) x fromOffset
    let os := logSlice home.topic (max fromOffset 1) records
    let ttl := some b.config.messageTtl
    let entries := pushedEntries now ttl sub.pushNextTag os
    out.2 = .ok os.length ∧ Broker.PushesTo E now x slot b out.1 sub os ∧
      (E.Appends → out.1.buffer slot =
        b.buffer slot ++ (tagged sub.pushNextTag os).flatMap (encodeInto E [])) ∧
      Pushed now ttl sub (sub.pushAll now ttl os) os ∧
      entries.map QueueEntry.walId = (os.filter (·.qos = .atLeastOnce)).map Offer.walId ∧
      (entries.map QueueEntry.tag).Nodup ∧
      (sub.offered.length + os.length < 2 ^ 64 →
        ∀ e ∈ entries, sub.queue.inflight.lookup e.tag = none) := by
  intro b out os ttl entries
  have hcount : os.length < 2 ^ 64 := (length_logSlice_le ..).trans_lt hlen
  have hnext : sub.pushNextTag < 2 ^ 64 := by
    obtain ⟨_, _, _, _, _, hlife⟩ := (lives_run E config true acts).life x sub hsub
    rw [hlife]
    exact Subscriber.pushNextTag_lt (by decide : 1 < 2 ^ 64) _
  have hstart : (if fromOffset = 0 then 1 else fromOffset) = max fromOffset 1 := by
    split <;> omega
  obtain ⟨hpushes, hcounted⟩ := Broker.foldl_replayCounted now
    (fun r hr => Wal.le_id_of_iterateFrom hread hr) hsub hslot hbelow (n := 0)
    (by rw [Nat.zero_add]; exact hcount)
  have hout : out = ((records.foldl (Broker.replayCounted E now home.topic x) (b, 0)).1,
      .ok (records.foldl (Broker.replayCounted E now home.topic x) (b, 0)).2) := by
    show b.replayToSubscriberCounted .. = _
    unfold Broker.replayToSubscriberCounted
    rw [if_pos (System.hasWal_run E config true acts), hhome, hstart, hread]
  rw [hout]
  refine ⟨by rw [hcounted, Nat.zero_add], hpushes, ?_, Subscriber.pushed_pushAll hnext hcount.le,
    walIds_pushedEntries .., nodup_tags_pushedEntries now ttl hnext hcount.le, ?_⟩
  · intro happends
    exact hpushes.buffer.trans (foldl_encodeInto happends ..)
  · intro hroom e he
    exact (System.pushTagged_run E config true acts hsub hslot (by omega)).fresh hroom he

/-- Messages on two topics, an ack, and a payload that is no entry. -/
def mixedRecords : List WalRecord :=
  [⟨1, [1, 1, 0, 1, 97, 11]⟩, ⟨2, [1, 0, 0, 1, 97, 12]⟩,
    ⟨3, [2, 0, 1, 99, 0, 1, 97, 0, 0, 0, 0, 0, 0, 0, 1]⟩, ⟨4, [255]⟩,
    ⟨5, [1, 1, 0, 1, 98, 13]⟩, ⟨6, [1, 1, 0, 1, 97, 14]⟩]

/-- A subscriber on a slot that has been pushed one message, under tag 1. -/
def pushedOnce : Broker :=
  ((System.new .default true).run bareExternals
    [.subscribe "c" "a" .atLeastOnce (some 1) (.slot 1) none,
      .publish 0 none ⟨none, "a", [10], .atLeastOnce⟩ none none]).broker

/-- From offset 2 on there are two messages on `a`; the one of QoS 1 gets tag 3. -/
theorem System.offset_replay_delivers_slice_mixed :
    let dir := Dir.empty.insert 1
      (Wal.segmentHeader ++ Wal.encodeRecords bareExternals.crc32 mixedRecords)
    let index := Wal.insertAll ∅ (Wal.allEntries [⟨1, mixedRecords, []⟩])
    let out := pushedOnce.replayToSubscriberCounted bareExternals 5
      (Wal.iterateFrom bareExternals.crc32 index dir) 1 2
    let entry : QueueEntry :=
      ⟨3, [14], .atLeastOnce, some 6, 5, some BrokerConfig.default.messageTtl, 1, 5⟩
    out.2 = .ok 2 ∧ out.1.buffer 1 = [10] ++ [12, 14] ∧
      ∃ sub sub', pushedOnce.subscribers.lookup 1 = some sub ∧
        out.1.subscribers.lookup 1 = some sub' ∧ sub.queue.inflight.lookup 3 = none ∧
        sub'.queue.inflight.lookup 3 = some entry := by
  intro dir index out entry
  obtain ⟨sub, hsub, hslot, hnext, hoffered⟩ : ∃ sub, pushedOnce.subscribers.lookup 1 = some sub ∧
      sub.mode = .slot 1 ∧ sub.pushNextTag = 2 ∧ sub.offered.length = 1 := by decide +kernel
  have hread : Wal.iterateFrom bareExternals.crc32 index dir (max 2 1) =
      .ok (mixedRecords.drop 1) := by decide +kernel
  have hslice : logSlice "a" (max 2 1) (mixedRecords.drop 1) =
      [⟨some 2, "a", [12], .atMostOnce⟩, ⟨some 6, "a", [14], .atLeastOnce⟩] := by decide +kernel
  have hbelow : pushedOnce.StaysBelow bareExternals 1 sub.pushNextTag
      (logSlice "a" (max 2 1) (mixedRecords.drop 1)) := by
    refine .of_appends (fun _ _ _ _ _ => rfl) ?_
    rw [hslice, hnext]
    decide +kernel
  obtain ⟨hcount, hpushes, happends, hpushed, -, -, hfresh⟩ :=
    System.offset_replay_delivers_slice bareExternals .default _ index dir 5 1 2 1 ⟨"a", none⟩ sub
      _ hread (by decide) (by decide +kernel) hsub hslot hbelow
  rw [hslice, hnext] at happends
  rw [hslice, hnext, hoffered] at hfresh
  have hentry : entry ∈ pushedEntries 5 (some BrokerConfig.default.messageTtl) sub.pushNextTag
      (logSlice "a" (max 2 1) (mixedRecords.drop 1)) := by
    rw [hslice, hnext]
    decide +kernel
  refine ⟨hcount.trans (by rw [hslice]; rfl), ?_, sub, _, hsub, hpushes.subscriber, ?_,
    hpushed.added entry hentry⟩
  · exact (happends fun _ _ _ _ _ => rfl).trans (by decide +kernel)
  · exact hfresh (by decide) entry (hslice ▸ hnext ▸ hentry)

end BlipMQ.Core
