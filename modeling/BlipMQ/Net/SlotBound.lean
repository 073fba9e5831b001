import BlipMQ.Net.Wildcard
import BlipMQ.Net.WriterTask

/-!
# Net — how long the buffer of a slot gets

A publish and an offset replay look at the length of the buffer before they
append a frame, so that they leave it longer than the threshold by one frame
at most. The replay of the log appends without looking. The writer swaps the
buffer for its local one, in which an in-band frame can be.
-/

namespace BlipMQ.Net

open BlipMQ.Core
open Wal (WalRecord)

/-! ## Sizes -/

/-- The longest frame, with its length field. -/
def maxEncodedLen : Nat := lengthFieldLen + maxFrameSize

theorem length_frameBytes (frame : Frame) :
    (frameBytes frame).length = lengthFieldLen + (1 + 8 + frame.payload.length) := by
  simp only [frameBytes, List.length_append, List.length_cons, beBytes_length]
  omega

/-- What a delivery takes in a buffer; one that cannot be encoded takes nothing. -/
def deliverLen (topic : String) (payload : Bytes) : Nat :=
  if (utf8 topic).length < 2 ^ 16 ∧ 20 + (utf8 topic).length + payload.length ≤ maxFrameSize then
    lengthFieldLen + (20 + (utf8 topic).length + payload.length)
  else 0

theorem deliverLen_le (topic : String) (payload : Bytes) :
    deliverLen topic payload ≤ maxEncodedLen := by
  unfold deliverLen maxEncodedLen
  split
  · rename_i hfits
    exact Nat.add_le_add_left hfits.2 _
  · exact Nat.zero_le _

theorem length_makeDeliverEncoder (buf : Bytes) (qos : QoSLevel) (tag : Nat) (topic : String)
    (payload : Bytes) : (makeDeliverEncoder buf qos tag topic payload).length =
      buf.length + deliverLen topic payload := by
  have hframe := makeDeliverEncoder_eq buf ⟨qos, tag, topic, payload⟩
  rw [hframe, List.length_append]
  unfold Delivery.frame? deliverLen
  dsimp only
  split
  · rw [Option.toList_some, List.flatMap_singleton, length_frameBytes, length_deliverFrame]
  · rfl

/-- Is the subscription served through the slot? -/
def onSlot (b : Broker) (slot x : Nat) : Bool :=
  (b.subscribers.lookup x).any fun sub => sub.mode = .slot slot

/-- The buffer is below the threshold and one frame more. -/
def Below (slot : Nat) (b : Broker) : Prop :=
  (b.buffer slot).length < b.config.slowConsumerBufferBytes + maxEncodedLen

section Below

variable {E : Externals} {b b' : Broker} {slot : Nat}

theorem Below.of_slots (h : Below slot b) (hslots : b'.slots = b.slots)
    (hconfig : b'.config = b.config) : Below slot b' := by
  unfold Below Broker.buffer
  rw [hslots, hconfig]
  exact h

theorem Below.deliver (hE : E.encoder = makeDeliverEncoder) (h : Below slot b) (now : Nat)
    (o : Offer) (ttl : Option Nat) (x : Nat) : Below slot (b.deliver E now o ttl x).1 := by
  unfold Below
  rw [(Broker.deliver_served E b now o ttl x).config, Broker.buffer_deliver]
  cases b.subscribers.lookup x with
  | none => exact h
  | some sub =>
    dsimp only
    split
    · rename_i hpush
      have hroom : (b.buffer slot).length < b.config.slowConsumerBufferBytes :=
        of_decide_eq_true hpush.2
      have hlen := deliverLen_le o.topic o.payload
      rw [hE, length_makeDeliverEncoder]
      omega
    · exact h

theorem Below.publishInner (hE : E.encoder = makeDeliverEncoder) (h : Below slot b) (now : Nat)
    (pre : Option ResolvedTopic) (o : Offer) (ttl : Option Nat) (key : Option Bytes) :
    Below slot (b.publishInner E now pre o ttl key) := by
  cases hrunning : b.shuttingDown with
  | true =>
    rw [Broker.publishInner, hrunning]
    exact h
  | false =>
    have hconfig : (b.publishInner E now pre o ttl key).config = b.config :=
      congrArg Prod.fst (Broker.publishInner_standing ..)
    have hstart : Below slot (b.startPublish E (b.record o.topic pre) o.walId key) :=
      h.of_slots (by cases b.record o.topic pre <;> rfl)
        (congrArg Prod.fst (Broker.startPublish_standing ..))
    have hloop : Below slot ((b.startPublish E (b.record o.topic pre) o.walId key).serveIds E now o
        (ttl.or (some b.config.messageTtl)) (b.snapshot E (b.record o.topic pre) o.topic key)) :=
      List.foldlRecOn (motive := Below slot) _ _ hstart fun _ hb x _ => hb.deliver hE now o _ x
    refine hloop.of_slots (Broker.slots_publishInner hrunning now pre o ttl key) ?_
    rw [hconfig]
    exact (congrArg Prod.fst ((Broker.serveIds_standing _).trans
      (Broker.startPublish_standing ..))).symm

theorem Below.replayTo (hE : E.encoder = makeDeliverEncoder) (h : Below slot b) (now : Nat)
    (topic : String) (x : Nat) (r : WalRecord) : Below slot (b.replayTo E now topic x r) := by
  unfold Broker.replayTo
  split
  · split
    · exact h.deliver hE now _ _ x
    · exact h
  · exact h

theorem Below.unsubscribeConnection (h : Below slot b) (connId : Nat) :
    Below slot (b.unsubscribeConnection connId) := by
  unfold Broker.unsubscribeConnection
  dsimp only
  have hloop : ∀ (removed : List (Nat × SubscriptionRef)) (b : Broker), Below slot b →
      Below slot (removed.foldl (fun b p => Broker.removeFromTopic b p.1 p.2) b) :=
    fun removed b hb => List.foldlRecOn (motive := Below slot) removed _ hb
      fun _ hb _ _ => hb.of_slots rfl rfl
  split
  · exact hloop _ _ (h.of_slots rfl rfl)
  · refine Below.of_slots (hloop _ _ ?_) rfl rfl
    exact h.of_slots rfl rfl

/-- What other connections do to their buffers; that of the slot stays. -/
def sparing (slot : Nat) (buf : Bytes) : BrokerAction → BrokerAction
  | .buffers slots channels => .buffers (slots.insert slot buf) channels
  | a => a

/-! ### Replay does not look -/

/-- What `deliver` looks at, asked of a delivery of the replay. -/
def LooksFirst (slot : Nat) (b : Broker) (x : Nat) : Prop :=
  onSlot b slot x → (b.buffer slot).length < b.config.slowConsumerBufferBytes

instance (slot : Nat) (b : Broker) (x : Nat) : Decidable (LooksFirst slot b x) :=
  inferInstanceAs (Decidable (_ → _))

theorem Below.redeliver (hE : E.encoder = makeDeliverEncoder) (h : Below slot b) (now : Nat)
    (o : Offer) {x : Nat} (hlooks : LooksFirst slot b x) :
    Below slot (b.redeliver E now o x) := by
  unfold Below
  rw [(Broker.redeliver_served E b now o x).config]
  unfold Broker.redeliver
  cases hx : b.subscribers.lookup x with
  | none => exact h
  | some sub =>
    dsimp only
    cases hmode : sub.mode with
    | poll => exact h
    | channel c => exact h
    | slot n =>
      by_cases hn : n = slot
      · subst hn
        have hroom := hlooks (by simp [onSlot, hx, hmode])
        have hlen := deliverLen_le o.topic o.payload
        show (((b.slots.insert n _).lookup n).getD []).length < _
        rw [AList.lookup_insert, Option.getD_some, hE, length_makeDeliverEncoder]
        exact Nat.add_lt_add_of_lt_of_le hroom hlen
      · show (((b.slots.insert n _).lookup slot).getD []).length < _
        rw [AList.lookup_insert_ne (Ne.symm hn)]
        exact h

/-- One turn of the loop of `replayRecord` over the subscribers. -/
def replayTurn (E : Externals) (now : Nat) (cursors : MaxMap (String × String)) (id : Nat)
    (m : WalMessageRecord) (b : Broker) (x : Nat) : Broker :=
  if b.beyondCursor cursors m.topic id x then
    b.redeliver E now ⟨some id, m.topic, m.payload, m.qos⟩ x
  else b

/-- Each delivery of a record finds the buffer below the threshold. -/
def RecordLooksFirst (E : Externals) (slot now : Nat) (cursors : MaxMap (String × String))
    (b : Broker) (r : WalRecord) : Prop :=
  ∀ m ∈ message? r, ∀ topic ∈ b.topics.lookup m.topic, Along (replayTurn E now cursors r.id m)
    (fun b x => b.beyondCursor cursors m.topic r.id x → LooksFirst slot b x) b topic.subscribers

instance (slot now : Nat) (cursors : MaxMap (String × String)) :
    DecidableRel (RecordLooksFirst E slot now cursors) :=
  fun _ _ => inferInstanceAs (Decidable (∀ m ∈ _, ∀ topic ∈ _, Along _ _ _ _))

theorem Below.replayRecord (hE : E.encoder = makeDeliverEncoder) {now : Nat}
    {cursors : MaxMap (String × String)} {r : WalRecord} (h : Below slot b)
    (hlooks : RecordLooksFirst E slot now cursors b r) :
    Below slot (Broker.replayRecord E now cursors b r) := by
  unfold Broker.replayRecord
  cases hm : message? r with
  | none => exact h
  | some m =>
    dsimp only
    cases htopic : b.topics.lookup m.topic with
    | none => exact h
    | some topic =>
      refine (hlooks m hm topic htopic).foldl (fun b x hb hx => ?_) h
      unfold replayTurn
      split
      · rename_i hdue
        exact hb.redeliver hE now _ (hx hdue)
      · exact hb

/-- Each delivery of the replay of a log does; the other calls look themselves. -/
def CallLooksFirst (E : Externals) (slot : Nat) (b : Broker) : BrokerAction → Prop
  | .replayFromWal now log checkpoint =>
    let cursors := Broker.replayCursors log checkpoint
    Along (Broker.replayRecord E now cursors) (RecordLooksFirst E slot now cursors) b
      (log.iterateFrom (Broker.replayStart checkpoint))
  | _ => True

instance : (a : BrokerAction) → Decidable (CallLooksFirst E slot b a)
  | .replayFromWal .. => inferInstanceAs (Decidable (Along _ _ _ _))
  | .subscribe .. | .subscribePattern .. | .unsubscribeConnection _ | .publish .. | .poll ..
  | .ack .. | .maintenanceTick .. | .replayToSubscriber .. | .buffers .. | .beginShutdown =>
    .isTrue trivial

theorem Below.act (hE : E.encoder = makeDeliverEncoder) (h : Below slot b) (a : BrokerAction)
    (hlooks : CallLooksFirst E slot b a) :
    Below slot (b.act E (sparing slot (b.buffer slot) a)) := by
  cases a with
  | subscribe clientId topic qos connId mode group => exact h.of_slots rfl rfl
  | subscribePattern clientId pattern qos connId mode =>
    simp only [sparing, Broker.act]
    split
    · exact h
    · unfold Broker.subscribePatternInner
      split <;> exact h.of_slots rfl rfl
  | unsubscribeConnection connId => exact h.unsubscribeConnection connId
  | publish now pre o ttl key => exact h.publishInner hE now pre o ttl key
  | poll now x =>
    simp only [sparing, Broker.act, Broker.poll]
    split
    · exact h.of_slots rfl rfl
    · exact h
  | ack x tag =>
    simp only [sparing, Broker.act, Broker.ack]
    split
    · split
      · exact h
      · exact h.of_slots rfl rfl
      · exact h.of_slots rfl rfl
    · exact h
  | maintenanceTick now clock =>
    -- the dead letters are published like anything else
    exact Broker.maintenanceTick_invariant h now clock (fun _ _ _ hb _ => hb.of_slots rfl rfl)
      fun _ _ hb => hb.publishInner hE clock none _ none none
  | replayFromWal now log checkpoint =>
    -- the cursors are raised behind the loop
    exact Below.of_slots (hlooks.foldl (fun _ _ hb hr => hb.replayRecord hE hr) h) rfl rfl
  | replayToSubscriber now log x fromOffset =>
    simp only [sparing, Broker.act, Broker.replayToSubscriber]
    split
    · exact h
    · exact List.foldlRecOn (motive := Below slot) _ _ h fun _ hb r _ => hb.replayTo hE now _ x r
  | buffers slots channels =>
    show (((slots.insert slot _).lookup slot).getD []).length < _
    rw [AList.lookup_insert]
    exact h
  | beginShutdown => exact h.of_slots rfl rfl

end Below

/-! ## The writer -/

def WriterAction.isPush : WriterAction → Bool
  | .push _ => true
  | _ => false

namespace WriterState

/-- What the local buffer can hold when the writer swaps: nothing after a wait, and
one in-band frame at most at the top of the loop. -/
structure Tidy (s : WriterState) : Prop where
  wait : s.phase = .wait → s.localBuf = []
  take : s.phase = .take → s.localBuf.length ≤ maxEncodedLen

variable {s s' : WriterState} {a : WriterAction}

theorem slot_swap (s : WriterState) :
    s.slot = [] ∧ s.swap.slot = [] ∨ s.slot ≠ [] ∧ s.swap.slot = s.localBuf := by
  unfold swap
  split
  · rename_i hempty
    exact .inl ⟨List.isEmpty_iff.mp hempty, List.isEmpty_iff.mp hempty⟩
  · rename_i hne
    exact .inr ⟨fun hnil => hne (List.isEmpty_iff.mpr hnil), rfl⟩

theorem Tidy.of_phase (hphase : s.phase ≠ .wait ∧ s.phase ≠ .take) : s.Tidy :=
  ⟨fun h => absurd h hphase.1, fun h => absurd h hphase.2⟩

theorem Tidy.of_empty (hempty : s.localBuf = []) : s.Tidy :=
  ⟨fun _ => hempty, fun _ => hempty ▸ Nat.zero_le _⟩

theorem Tidy.start : Tidy start := .of_empty rfl

theorem Tidy.step (h : s.Tidy) (hs : s.step a = some s') : s'.Tidy := by
  cases a with
  | push d =>
    cases hs
    exact ⟨h.wait, h.take⟩
  | notify | send frame =>
    obtain ⟨-, ⟨⟩⟩ := Option.ite_none_right_eq_some.mp hs
    exact ⟨h.wait, h.take⟩
  | dropSender =>
    cases hs
    exact ⟨h.wait, h.take⟩
  | take =>
    obtain ⟨-, rfl⟩ := stepTake_cases hs
    exact .of_phase ⟨by simp, by simp⟩
  | drain =>
    obtain ⟨hdrain, ⟨-, rfl⟩ | ⟨f, rest, -, -, ⟨buf, -, rfl⟩ | ⟨e, -, rfl⟩⟩⟩ := stepDrain_cases hs
    · exact .of_phase ⟨by simp, by simp⟩
    · exact .of_phase (by simp [hdrain])
    · exact .of_phase ⟨by simp, by simp⟩
  | flush result =>
    rcases stepFlush_cases hs with ⟨-, hempty, rfl⟩ | ⟨-, -, rfl⟩ | ⟨-, rfl⟩
    · exact .of_empty hempty
    · exact .of_empty rfl
    · exact .of_empty rfl
  | wake =>
    obtain ⟨hwait, ⟨⟩⟩ := Option.ite_none_right_eq_some.mp hs
    exact .of_empty (h.wait hwait.1)
  | recv =>
    obtain ⟨hwait, ⟨f, rest, buf, -, henc, rfl⟩ | ⟨f, rest, e, -, -, rfl⟩ | ⟨-, rfl⟩⟩ :=
      stepRecv_cases hs
    · -- the only in-band frame that a swap can find
      obtain ⟨hlen, hbuf⟩ := encodeFrame_eq_ok.mp henc
      refine ⟨by simp, fun _ => ?_⟩
      rw [hbuf, h.wait hwait, List.nil_append, length_frameBytes]
      exact Nat.add_le_add_left hlen _
    · exact .of_empty rfl
    · exact .of_phase ⟨by simp, by simp⟩
  | shutdown =>
    obtain ⟨-, ⟨⟩⟩ := Option.ite_none_right_eq_some.mp hs
    exact .of_phase ⟨by simp, by simp⟩

/-- The slot after a step of the task: at the top of the loop the local buffer comes
in its place; otherwise it is left or taken and nothing comes. -/
theorem Tidy.slot_step (h : s.Tidy) (hpush : a.isPush = false) (hs : s.step a = some s') :
    a = .take ∧ s.phase = .take ∧ s.slot ≠ [] ∧ s'.slot = s.localBuf ∨
      (a = .take → s.slot = []) ∧ (s'.slot = s.slot ∨ s'.slot = []) := by
  cases a with
  | push d => cases hpush
  | take =>
    obtain ⟨hphase, rfl⟩ := stepTake_cases hs
    rcases s.slot_swap with ⟨hnil, hstays⟩ | ⟨hne, hswap⟩
    · exact .inr ⟨fun _ => hnil, .inr hstays⟩
    · exact .inl ⟨rfl, hphase, hne, hswap⟩
  | recv =>
    obtain ⟨hwait, ⟨f, rest, buf, -, -, rfl⟩ | ⟨f, rest, e, -, -, rfl⟩ | ⟨-, rfl⟩⟩ :=
      stepRecv_cases hs
    · exact .inr ⟨by simp, .inl rfl⟩
    · exact .inr ⟨by simp, .inl rfl⟩
    · refine .inr ⟨by simp, .inr ?_⟩
      rcases s.slot_swap with ⟨-, hstays⟩ | ⟨-, hswap⟩
      · exact hstays
      · exact hswap.trans (h.wait hwait)
  | drain =>
    obtain ⟨-, ⟨-, rfl⟩ | ⟨f, rest, -, -, ⟨buf, -, rfl⟩ | ⟨e, -, rfl⟩⟩⟩ := stepDrain_cases hs
    all_goals exact .inr ⟨by simp, .inl rfl⟩
  | flush result =>
    rcases stepFlush_cases hs with ⟨-, -, rfl⟩ | ⟨-, -, rfl⟩ | ⟨-, rfl⟩
    all_goals exact .inr ⟨by simp, .inl rfl⟩
  | notify | send frame | dropSender | wake | shutdown =>
    simp only [WriterState.step] at hs
    repeat' split at hs
    all_goals
      cases hs
      try exact .inr ⟨by simp, .inl rfl⟩

end WriterState

/-! ## Runs -/

/-- What happens around one connection: calls on the broker, single turns of its
two loops over subscribers, so that anything can come in between, and steps of
the connection's writer. -/
inductive ConnAction where
  | call (a : BrokerAction)
  | deliver (now : Nat) (o : Offer) (ttl : Option Nat) (subId : Nat)
  | redeliver (now : Nat) (o : Offer) (subId : Nat)
  | writer (a : WriterAction)

/-- The buffer of the slot stands in both, and is kept the same. -/
structure Conn where
  broker : Broker
  writer : WriterState

/-- Does the service append to the slot? Its `notify_one` is to follow. -/
def appends (b : Broker) (slot : Nat) (p : Nat × Service) : Bool :=
  match p.2 with
  | .push _ _ _ sent => sent && onSlot b slot p.1
  | .enqueue .. | .dequeue .. | .ack _ | .tick .. => false

namespace Conn

def start (config : BrokerConfig) (hasWal : Bool) : Conn :=
  ⟨(System.new config hasWal).broker, .start⟩

/-- The broker has become `b` by the services. -/
def served (s : Conn) (slot : Nat) (b : Broker) (svcs : List (Nat × Service)) : Conn where
  broker := b
  writer := { s.writer with
    slot := b.buffer slot
    notifying := s.writer.notifying + (svcs.filter (appends s.broker slot)).length }

/-- A step the writer cannot take does nothing; what is pushed comes from the broker. -/
def write (s : Conn) (slot : Nat) (a : WriterAction) : Conn :=
  if a.isPush then s
  else
    match s.writer.step a with
    | none => s
    | some w => ⟨{ s.broker with slots := s.broker.slots.insert slot w.slot }, w⟩

def step (E : Externals) (slot : Nat) (s : Conn) : ConnAction → Conn
  | .call a =>
    let a := sparing slot (s.broker.buffer slot) a
    s.served slot (s.broker.act E a) (s.broker.services E a)
  | .deliver now o ttl x =>
    s.served slot (s.broker.deliver E now o ttl x).1 (s.broker.deliverServices now o ttl x)
  | .redeliver now o x =>
    s.served slot (s.broker.redeliver E now o x) (s.broker.redeliverServices now o x)
  | .writer a => s.write slot a

/-- What keeps the buffer below the bound at one step. A delivery of the replay of
the log looks first. The rest is about a threshold of 0, where a single frame can be
too long: the writer swaps in none of the greatest length. -/
def KeepsBelow (E : Externals) (slot : Nat) (s : Conn) : ConnAction → Prop
  | .call a => CallLooksFirst E slot s.broker a
  | .deliver .. => True
  | .redeliver _ _ x => LooksFirst slot s.broker x
  | .writer a => s.broker.config.slowConsumerBufferBytes = 0 → a = .take →
      s.writer.phase = .take → s.broker.buffer slot ≠ [] →
      s.writer.localBuf.length < maxEncodedLen

instance (E : Externals) (slot : Nat) : (s : Conn) → (a : ConnAction) →
    Decidable (s.KeepsBelow E slot a)
  | s, .call a => inferInstanceAs (Decidable (CallLooksFirst E slot s.broker a))
  | _, .deliver .. => .isTrue trivial
  | s, .redeliver _ _ x => inferInstanceAs (Decidable (LooksFirst slot s.broker x))
  | _, .writer _ => inferInstanceAs (Decidable (_ → _ → _ → _ → _))

/-- What holds along every run. -/
structure Inv (config : BrokerConfig) (slot : Nat) (s : Conn) : Prop where
  config : s.broker.config = config
  slot : s.writer.slot = s.broker.buffer slot
  tidy : s.writer.Tidy

section Step

variable {E : Externals} {config : BrokerConfig} {slot : Nat} {s : Conn}

theorem Inv.served (h : s.Inv config slot) {b : Broker} (hconfig : b.config = s.broker.config)
    (svcs : List (Nat × Service)) : (s.served slot b svcs).Inv config slot :=
  ⟨hconfig.trans h.config, rfl, ⟨h.tidy.wait, h.tidy.take⟩⟩

theorem buffer_write {w : WriterState} (b : Broker) :
    Broker.buffer { b with slots := b.slots.insert slot w.slot } slot = w.slot := by
  show ((b.slots.insert slot w.slot).lookup slot).getD [] = _
  rw [AList.lookup_insert]
  rfl

theorem Inv.write (h : s.Inv config slot) (a : WriterAction) :
    (s.write slot a).Inv config slot := by
  unfold Conn.write
  split
  · exact h
  · split
    · exact h
    · rename_i w hw
      exact ⟨h.config, (buffer_write s.broker).symm, h.tidy.step hw⟩

theorem Inv.step (h : s.Inv config slot) (a : ConnAction) : (s.step E slot a).Inv config slot := by
  cases a with
  | call a => exact h.served (Broker.act_config _) _
  | deliver now o ttl x => exact h.served (Broker.deliver_served E s.broker now o ttl x).config _
  | redeliver now o x => exact h.served (Broker.redeliver_served E s.broker now o x).config _
  | writer a => exact h.write a

theorem Inv.below_write (h : s.Inv config slot) (hbelow : Below slot s.broker)
    (a : WriterAction) (hkeeps : s.KeepsBelow E slot (.writer a)) :
    Below slot (s.write slot a).broker := by
  unfold Conn.write
  split
  · exact hbelow
  rename_i hpush
  split
  · exact hbelow
  rename_i w hw
  unfold Below
  rw [buffer_write]
  show w.slot.length < s.broker.config.slowConsumerBufferBytes + maxEncodedLen
  rcases h.tidy.slot_step (by simpa using hpush) hw with ⟨rfl, hphase, hne, hlocal⟩ | ⟨-, hleft⟩
  · -- one frame at most comes in, which is too long only for a threshold of 0
    have hframe := h.tidy.take hphase
    rw [hlocal]
    by_cases hzero : s.broker.config.slowConsumerBufferBytes = 0
    · have hshort := hkeeps hzero rfl hphase (h.slot ▸ hne)
      omega
    · omega
  · rcases hleft with hsame | hempty
    · rw [hsame, h.slot]
      exact hbelow
    · rw [hempty]
      exact Nat.zero_lt_of_lt hbelow

theorem Inv.below_step (hE : E.encoder = makeDeliverEncoder) (h : s.Inv config slot)
    (hbelow : Below slot s.broker) (a : ConnAction) (hkeeps : s.KeepsBelow E slot a) :
    Below slot (s.step E slot a).broker := by
  cases a with
  | call a => exact hbelow.act hE a hkeeps
  | deliver now o ttl x => exact hbelow.deliver hE now o ttl x
  | redeliver now o x => exact hbelow.redeliver hE now o hkeeps
  | writer a => exact h.below_write hbelow a hkeeps

end Step

end Conn

/-- **When the buffer of a slow consumer stays below the threshold and one frame
more.** It does so at every point of a run in which each delivery of a replay of the
log to the slot finds the buffer below the threshold, which is what the publish and
the offset replay look at; and, with a threshold of 0, the writer swaps in no in-band
frame of the greatest length. -/
theorem slot_bounded {E : Externals} (hE : E.encoder = makeDeliverEncoder)
    (config : BrokerConfig) (hasWal : Bool) (slot : Nat) (acts : List ConnAction)
    (hlooks : Along (Conn.step E slot) (Conn.KeepsBelow E slot) (.start config hasWal) acts) :
    ∀ done, done <+: acts →
      ((done.foldl (Conn.step E slot) (.start config hasWal)).broker.buffer slot).length <
        config.slowConsumerBufferBytes + maxEncodedLen := by
  intro done hdone
  have hstart : (Conn.start config hasWal).Inv config slot := ⟨rfl, rfl, .start⟩
  have hempty : Below slot (Conn.start config hasWal).broker :=
    Nat.lt_of_lt_of_le (show 0 < maxEncodedLen by decide) (Nat.le_add_left ..)
  obtain ⟨hinv, hbelow⟩ := (hlooks.of_prefix hdone).foldl
    (P := fun s => s.Inv config slot ∧ Below slot s.broker)
    (fun s a hs hkeeps => ⟨hs.1.step a, hs.1.below_step hE hs.2 a hkeeps⟩) ⟨hstart, hempty⟩
  have hconfig := congrArg BrokerConfig.slowConsumerBufferBytes hinv.config
  exact hconfig ▸ hbelow

/-! ## Three subscriptions on one slot -/

/-- Hashes and checksums are of no interest here. -/
def slotOnly : Externals := ⟨fun _ => 0, fun _ => 0, makeDeliverEncoder⟩

/-- One connection subscribes to a topic three times. -/
def sharing : List ConnAction :=
  List.replicate 3 (.call (.subscribe "c" "t" .atMostOnce (some 1) (.slot 0) none))

/-- A log of one record. -/
def oneRecord (bytes : Bytes) : Log where
  closed := []
  active := ⟨1, [⟨1, bytes⟩]⟩
  nextId := 2
  ascending := by simp [recordsOf]
  bounded := by simp [recordsOf]
  pos := by decide
  nextId_le := by decide

/-- Two publishes with the writer's swap between them, one turn of a replay, and a
replay of the log to all three. -/
theorem slot_bounded_published :
    let acts : List ConnAction := sharing ++
      [.call (.publish 0 none ⟨none, "t", [1], .atMostOnce⟩ none none), .writer .take,
        .writer .notify, .call (.publish 1 none ⟨none, "t", [2], .atMostOnce⟩ none none),
        .redeliver 2 ⟨some 1, "t", [7], .atMostOnce⟩ 2,
        .call (.replayFromWal 3 (oneRecord [1, 0, 0, 1, 116, 7]) none)]
    ((acts.foldl (Conn.step slotOnly 0) (.start .default true)).broker.buffer 0).length = 7 * 26 ∧
      slotOnly.encoder = makeDeliverEncoder ∧
      Along (Conn.step slotOnly 0) (Conn.KeepsBelow slotOnly 0) (.start .default true) acts ∧
      ∀ done, done <+: acts →
        ((done.foldl (Conn.step slotOnly 0) (.start .default true)).broker.buffer 0).length <
          BrokerConfig.default.slowConsumerBufferBytes + maxEncodedLen := by
  intro acts
  have hlooks : Along (Conn.step slotOnly 0) (Conn.KeepsBelow slotOnly 0) (.start .default true)
      acts := by
    decide +kernel
  exact ⟨by decide +kernel, rfl, hlooks, slot_bounded rfl .default true 0 acts hlooks⟩

/-- Replay sends the message to all three. -/
theorem length_buffer_sharing {payload bytes : Bytes}
    (h : (WalEntry.message ⟨"t", .atMostOnce, payload⟩).encode = .ok bytes) :
    (((sharing ++ [ConnAction.call (.replayFromWal 0 (oneRecord bytes) none)]).foldl
      (Conn.step slotOnly 0) (.start .default true)).broker.buffer 0).length =
        3 * deliverLen "t" payload := by
  have hmessage : message? ⟨1, bytes⟩ = some ⟨"t", .atMostOnce, payload⟩ := message?_of_encode h
  have hcursors : Broker.cursorsOf none [⟨1, bytes⟩] = ∅ := by
    show Broker.refineCursor ∅ _ = ∅
    rw [Broker.refineCursor, ack?_of_encode_message h]
  let b := (sharing.foldl (Conn.step slotOnly 0) (.start .default true)).broker
  show ((b.replayRecords slotOnly 0 none [⟨1, bytes⟩]).buffer 0).length = _
  unfold Broker.replayRecords
  rw [hcursors]
  show ((Broker.replayRecord slotOnly 0 ∅ b ⟨1, bytes⟩).buffer 0).length = _
  rw [Broker.replayRecord, hmessage]
  let push (buf : Bytes) := makeDeliverEncoder buf .atMostOnce 0 "t" payload
  show (push (push (push []))).length = _
  simp only [push, length_makeDeliverEncoder, List.length_nil]
  omega

/-- A message of 12 MiB is in the log. Its replay leaves 36 MiB in the buffer, where
the threshold is 16 MiB. -/
theorem replay_overfills_slot : ∃ log : Log,
    let acts : List ConnAction := sharing ++ [.call (.replayFromWal 0 log none)]
    BrokerConfig.default.slowConsumerBufferBytes + maxEncodedLen <
      ((acts.foldl (Conn.step slotOnly 0) (.start .default true)).broker.buffer 0).length := by
  let payload : Bytes := List.replicate (12 * 1024 * 1024) 0
  have htopic : (utf8 "t").length = 1 := by decide
  have hlen : deliverLen "t" payload = 4 + (20 + 1 + 12 * 1024 * 1024) := by
    unfold deliverLen
    rw [htopic, List.length_replicate]
    rfl
  have hfits : (WalEntry.message ⟨"t", .atMostOnce, payload⟩).Fits := by
    show (utf8 "t").length < 2 ^ 16
    decide
  obtain ⟨bytes, hbytes⟩ := WalEntry.encode_ok_iff.mpr hfits
  refine ⟨oneRecord bytes, ?_⟩
  dsimp only
  rw [length_buffer_sharing hbytes, hlen]
  decide

end BlipMQ.Net
