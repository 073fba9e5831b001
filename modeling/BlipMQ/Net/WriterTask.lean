import BlipMQ.Lib.Exchange
import BlipMQ.Net.Deliver

/-!
# Net — the writer of a connection

The writer task owns the socket. The broker appends DELIVER frames to the
connection's push slot and the reader sends in-band frames on a channel; the
task swaps the slot's buffer for its local one, encodes in-band frames behind
it and writes the local buffer out. It is an `Exchange` of frames, with
buffers of bytes in place of lists of frames.
-/

namespace BlipMQ.Net

open BlipMQ.Core

def maxBatchBytes : Nat := 256 * 1024
def inbandChannelCapacity : Nat := 64

/-! ## The task -/

/-- A call of the encoder the broker pushes with. -/
structure Delivery where
  qos : QoSLevel
  tag : Nat
  topic : String
  payload : Bytes
  deriving DecidableEq, Repr

/-- How a `write_all` ends; on an error some bytes may be out. -/
inductive WriteResult where
  | ok
  | failed (written : Nat)
  deriving DecidableEq, Repr

/-- `slot` is the buffer of the push slot, `permit` that of its `Notify`, and
`notifying` counts the pushes that have let go of the buffer and have not called
`notify_one` yet. `stranded` is bookkeeping no step reads: the last swap has put
in-band frames into the slot. -/
structure WriterState where
  phase : Phase
  localBuf : Bytes
  slot : Bytes
  notifying : Nat
  permit : Bool
  inband : List Frame
  readerOpen : Bool
  socket : Bytes
  stranded : Bool
  deriving DecidableEq, Repr

inductive WriterAction where
  /-- The frame is appended under the lock of the buffer. -/
  | push (d : Delivery)
  /-- A push calls `notify_one`, without the lock. -/
  | notify
  | send (frame : Frame)
  /-- The reader ends and drops its sender. -/
  | dropSender
  | take
  /-- One turn of the loop over `try_recv`. -/
  | drain
  | flush (result : WriteResult)
  | wake
  | recv
  | shutdown
  deriving DecidableEq, Repr

namespace WriterState

def start : WriterState := ⟨.take, [], [], 0, false, [], true, [], false⟩

def swap (s : WriterState) : WriterState :=
  if s.slot.isEmpty then s else { s with localBuf := s.slot, slot := s.localBuf }

def stepTake (s : WriterState) : Option WriterState :=
  if s.phase = .take then
    some { s.swap with phase := .drain, stranded := !s.slot.isEmpty && !s.localBuf.isEmpty }
  else none

def stepDrain (s : WriterState) : Option WriterState :=
  if s.phase ≠ .drain then none
  else if maxBatchBytes ≤ s.localBuf.length then some { s with phase := .flush }
  else
    match s.inband with
    | [] => some { s with phase := .flush }
    | f :: rest =>
      match encodeFrame f s.localBuf with
      | .ok buf => some { s with localBuf := buf, inband := rest }
      | .error _ => some { s with inband := rest, phase := .flush }

/-- The buffer, or what got out of it. -/
def writeAll (s : WriterState) : WriteResult → Bytes
  | .ok => s.socket ++ s.localBuf
  | .failed written => s.socket ++ s.localBuf.take written

def stepFlush (s : WriterState) (result : WriteResult) : Option WriterState :=
  match s.phase with
  | .flush =>
    if s.localBuf.isEmpty then some { s with phase := .wait }
    else some { s with
      socket := s.writeAll result
      localBuf := []
      phase := if result = .ok then .take else .done }
  | .last => some { s with socket := s.writeAll result, localBuf := [], phase := .done }
  | _ => none

/-- The branch of the `select!` on the channel, which comes after the one on the
notification. Without a sender the rest of the slot is written at last. -/
def stepRecv (s : WriterState) : Option WriterState :=
  if s.phase ≠ .wait ∨ s.permit then none
  else
    match s.inband with
    | f :: rest =>
      match encodeFrame f s.localBuf with
      | .ok buf => some { s with localBuf := buf, inband := rest, phase := .take }
      | .error _ => some { s with inband := rest, localBuf := [], phase := .done }
    | [] => if s.readerOpen then none else some { s.swap with phase := .last }

def step (s : WriterState) : WriterAction → Option WriterState
  | .push d => some { s with
      slot := makeDeliverEncoder s.slot d.qos d.tag d.topic d.payload
      notifying := s.notifying + 1 }
  | .notify =>
    if 0 < s.notifying then some { s with notifying := s.notifying - 1, permit := true } else none
  | .send frame =>
    if s.readerOpen && s.phase ≠ .done && s.inband.length < inbandChannelCapacity then
      some { s with inband := s.inband ++ [frame] }
    else none
  | .dropSender => some { s with readerOpen := false }
  | .take => s.stepTake
  | .drain => s.stepDrain
  | .flush result => s.stepFlush result
  | .wake =>
    if s.phase = .wait ∧ s.permit then some { s with permit := false, phase := .take } else none
  | .recv => s.stepRecv
  | .shutdown => if s.phase = .wait then some { s with phase := .done } else none

/-! What the steps of the loop can do. -/

section Cases

variable {s s' : WriterState}

theorem stepTake_cases (hs : s.stepTake = some s') :
    s.phase = .take ∧ s' = { s.swap with
      phase := .drain
      stranded := !s.slot.isEmpty && !s.localBuf.isEmpty } := by
  obtain ⟨hp, ⟨⟩⟩ := Option.ite_none_right_eq_some.mp hs
  exact ⟨hp, rfl⟩

theorem stepDrain_cases (hs : s.stepDrain = some s') :
    s.phase = .drain ∧
      ((maxBatchBytes ≤ s.localBuf.length ∨ s.inband = []) ∧ s' = { s with phase := .flush } ∨
      ∃ f rest, s.localBuf.length < maxBatchBytes ∧ s.inband = f :: rest ∧
        ((∃ buf, encodeFrame f s.localBuf = .ok buf ∧
            s' = { s with localBuf := buf, inband := rest }) ∨
          ∃ e, encodeFrame f s.localBuf = .error e ∧
            s' = { s with inband := rest, phase := .flush })) := by
  unfold stepDrain at hs
  split at hs
  · cases hs
  rename_i hphase
  refine ⟨by simpa using hphase, ?_⟩
  split at hs
  · rename_i hfull
    cases hs
    exact .inl ⟨.inl hfull, rfl⟩
  rename_i hroom
  split at hs
  · rename_i hnil
    cases hs
    exact .inl ⟨.inr hnil, rfl⟩
  · rename_i f rest hinband
    refine .inr ⟨f, rest, Nat.lt_of_not_le hroom, hinband, ?_⟩
    split at hs
    · rename_i buf henc
      cases hs
      exact .inl ⟨buf, henc, rfl⟩
    · rename_i e henc
      cases hs
      exact .inr ⟨e, henc, rfl⟩

theorem stepFlush_cases {result : WriteResult} (hs : s.stepFlush result = some s') :
    s.phase = .flush ∧ s.localBuf = [] ∧ s' = { s with phase := .wait } ∨
    s.phase = .flush ∧ s.localBuf ≠ [] ∧ s' = { s with
      socket := s.writeAll result
      localBuf := []
      phase := if result = .ok then .take else .done } ∨
    s.phase = .last ∧
      s' = { s with socket := s.writeAll result, localBuf := [], phase := .done } := by
  unfold stepFlush at hs
  split at hs
  · rename_i hp
    split at hs
    · rename_i hempty
      cases hs
      exact .inl ⟨hp, List.isEmpty_iff.mp hempty, rfl⟩
    · rename_i hne
      cases hs
      exact .inr (.inl ⟨hp, fun hnil => hne (List.isEmpty_iff.mpr hnil), rfl⟩)
  · rename_i hp
    cases hs
    exact .inr (.inr ⟨hp, rfl⟩)
  · cases hs

theorem stepRecv_cases (hs : s.stepRecv = some s') :
    s.phase = .wait ∧
      ((∃ f rest buf, s.inband = f :: rest ∧ encodeFrame f s.localBuf = .ok buf ∧
          s' = { s with localBuf := buf, inband := rest, phase := .take }) ∨
        (∃ f rest e, s.inband = f :: rest ∧ encodeFrame f s.localBuf = .error e ∧
          s' = { s with inband := rest, localBuf := [], phase := .done }) ∨
        s.inband = [] ∧ s' = { s.swap with phase := .last }) := by
  unfold stepRecv at hs
  split at hs
  · cases hs
  rename_i hwait
  have hp : s.phase = .wait := by
    by_contra hne
    exact hwait (.inl hne)
  refine ⟨hp, ?_⟩
  split at hs
  · rename_i f rest hinband
    split at hs
    · rename_i buf henc
      cases hs
      exact .inl ⟨f, rest, buf, hinband, henc, rfl⟩
    · rename_i e henc
      cases hs
      exact .inr (.inl ⟨f, rest, e, hinband, henc, rfl⟩)
  · rename_i hinband
    split at hs
    · cases hs
    · cases hs
      exact .inr (.inr ⟨hinband, rfl⟩)

end Cases

end WriterState

/-! ## What goes in -/

/-- The frame a push appends to the slot, if it can be encoded. -/
def Delivery.frame? (d : Delivery) : Option Frame :=
  if (utf8 d.topic).length < 2 ^ 16 ∧
      20 + (utf8 d.topic).length + d.payload.length ≤ maxFrameSize then
    some (deliverFrame (qosByte d.qos) d.tag d.topic d.payload)
  else none

namespace WriterAction

def pushed : WriterAction → List Frame
  | .push d => d.frame?.toList
  | _ => []

def sent : WriterAction → List Frame
  | .send frame => [frame]
  | _ => []

/-- Neither shutdown nor a write error, and what is sent can be encoded. -/
def Clean : WriterAction → Prop
  | .send frame => 1 + 8 + frame.payload.length ≤ maxFrameSize
  | .flush (.failed _) => False
  | .shutdown => False
  | _ => True

instance : DecidablePred Clean
  | .push _ => .isTrue trivial
  | .notify => .isTrue trivial
  | .send _ => inferInstanceAs (Decidable (_ ≤ _))
  | .dropSender => .isTrue trivial
  | .take => .isTrue trivial
  | .drain => .isTrue trivial
  | .flush .ok => .isTrue trivial
  | .flush (.failed _) => .isFalse id
  | .wake => .isTrue trivial
  | .recv => .isTrue trivial
  | .shutdown => .isFalse id

end WriterAction

/-- The DELIVER frames that were appended to the slot, in their order. -/
def pushedFrames (acts : List WriterAction) : List Frame := acts.flatMap WriterAction.pushed

/-- The frames the reader sent, in their order. -/
def sentFrames (acts : List WriterAction) : List Frame := acts.flatMap WriterAction.sent

theorem makeDeliverEncoder_eq (buf : Bytes) (d : Delivery) :
    makeDeliverEncoder buf d.qos d.tag d.topic d.payload =
      buf ++ d.frame?.toList.flatMap frameBytes := by
  unfold makeDeliverEncoder Delivery.frame?
  by_cases htopic : (utf8 d.topic).length < 2 ^ 16
  · rw [encodeDeliverFrame_eq htopic]
    by_cases hfits : 20 + (utf8 d.topic).length + d.payload.length ≤ maxFrameSize
    · rw [if_pos hfits, if_pos ⟨htopic, hfits⟩]
      simp
    · rw [if_neg hfits, if_neg fun h => hfits h.2]
      simp
  · have hlong : 2 ^ 16 ≤ (utf8 d.topic).length := Nat.le_of_not_lt htopic
    rw [if_neg fun h => htopic h.1]
    unfold encodeDeliverFrame
    simp only [if_pos hlong, Option.toList_none, List.flatMap_nil, List.append_nil]

/-! ## The frames behind the bytes -/

/-- DELIVER frames on the left, in-band frames on the right. -/
abbrev Item := Frame ⊕ Frame

def Item.bytes (i : Item) : Bytes := frameBytes (i.elim id id)

def itemBytes (items : List Item) : Bytes := items.flatMap Item.bytes

@[simp] theorem itemBytes_append (items items' : List Item) :
    itemBytes (items ++ items') = itemBytes items ++ itemBytes items' :=
  List.flatMap_append

@[simp] theorem itemBytes_nil : itemBytes [] = [] := rfl

theorem itemBytes_isEmpty (items : List Item) : (itemBytes items).isEmpty = items.isEmpty := by
  cases items with
  | nil => rfl
  | cons i items =>
    have hne : itemBytes (i :: items) ≠ [] := fun h =>
      frameBytes_ne_nil _ (List.append_eq_nil_iff.mp h).1
    simpa using hne

theorem encodeFrame_item {f : Frame} {items : List Item} {buf : Bytes}
    (h : encodeFrame f (itemBytes items) = .ok buf) : buf = itemBytes (items ++ [.inr f]) := by
  rw [(encodeFrame_eq_ok.mp h).2, itemBytes_append]
  simp [itemBytes, Item.bytes]

/-- The buffers hold the bytes of whole frames, and the frames are those of an
exchange. -/
structure Holds (s : WriterState) (x : Exchange Frame Frame) : Prop where
  phase : s.phase = x.phase
  localBuf : s.localBuf = itemBytes x.held
  slot : s.slot = itemBytes x.shared
  socket : s.socket = itemBytes x.out
  inband : s.inband = x.queue
  encodable : ∀ f ∈ x.queue, 1 + 8 + f.payload.length ≤ maxFrameSize
  stranded : s.stranded = true ↔ Exchange.rights x.shared ≠ []
  round : x.Round

/-- An in-band frame is encoded while an earlier one is in the slot. -/
def WriterState.Overtakes (s : WriterState) (a : WriterAction) : Prop :=
  a = .drain ∧ s.phase = .drain ∧ s.stranded = true ∧ s.localBuf.length < maxBatchBytes ∧
    s.inband ≠ []

instance (s : WriterState) (a : WriterAction) : Decidable (s.Overtakes a) :=
  inferInstanceAs (Decidable (_ ∧ _))

/-- One step of the task is at most one move of the exchange. -/
structure Simulates (s : WriterState) (x : Exchange Frame Frame) (a : WriterAction)
    (s' : WriterState) (moves : List (Exchange.Move Frame Frame)) (x' : Exchange Frame Frame) :
    Prop where
  run : run Exchange.step x moves = some x'
  holds : Holds s' x'
  pushed : Exchange.pushes moves = a.pushed
  sent : Exchange.sends moves = a.sent
  order : Meets Exchange.step (fun x m => ¬ x.Overtakes m) x moves ↔ ¬ s.Overtakes a

section Step

variable {s s' : WriterState} {x : Exchange Frame Frame} {a : WriterAction}

theorem Holds.swap (h : Holds s x) :
    s.swap.localBuf = itemBytes x.swap.held ∧ s.swap.slot = itemBytes x.swap.shared ∧
      s.swap.socket = itemBytes x.swap.out ∧ s.swap.inband = x.swap.queue := by
  unfold WriterState.swap Exchange.swap
  rw [h.slot, itemBytes_isEmpty]
  split
  · exact ⟨h.localBuf, h.slot, h.socket, h.inband⟩
  · exact ⟨rfl, h.localBuf, h.socket, h.inband⟩

/-- A step that moves nothing. -/
theorem Simulates.none (hholds : Holds s' x) (hpushed : a.pushed = []) (hsent : a.sent = [])
    (hover : ¬ s.Overtakes a) : Simulates s x a s' [] x :=
  ⟨rfl, hholds, hpushed.symm, hsent.symm, iff_of_true trivial hover⟩

theorem Simulates.one {m : Exchange.Move Frame Frame} {x' : Exchange Frame Frame}
    (hm : x.step m = some x') (hholds : Holds s' x') (hpushed : m.pushed = a.pushed)
    (hsent : m.sent = a.sent) (hover : x.Overtakes m ↔ s.Overtakes a) :
    Simulates s x a s' [m] x' where
  run := run_cons.mpr ⟨x', hm, rfl⟩
  holds := hholds
  pushed := by simpa [Exchange.pushes] using hpushed
  sent := by simpa [Exchange.sends] using hsent
  order := by simpa [Meets] using not_congr hover

/-- Only a `drain` overtakes. -/
theorem WriterState.not_overtakes (s : WriterState) (h : a ≠ .drain) : ¬ s.Overtakes a :=
  fun hover => h hover.1

/-- What a swap leaves in the slot: nothing, or an in-band frame that was in the
local buffer. -/
theorem Holds.stranded_swap (h : Holds s x) (hp : x.phase = .take) :
    (!s.slot.isEmpty && !s.localBuf.isEmpty) = true ↔ Exchange.rights x.swap.shared ≠ [] := by
  obtain ⟨hlefts, -⟩ := h.round.fresh hp
  rw [h.slot, h.localBuf, itemBytes_isEmpty, itemBytes_isEmpty]
  unfold Exchange.swap
  split
  · rename_i hnil
    simp [List.isEmpty_iff.mp hnil]
  · rename_i hne
    have hheld : x.held = [] ↔ Exchange.rights x.held = [] := by
      have hperm := Exchange.perm_lefts_rights x.held
      rw [hlefts] at hperm
      constructor
      · intro hnil
        rw [hnil]
        rfl
      · intro hnil
        rw [hnil] at hperm
        exact List.perm_nil.mp hperm
    simp [hne, ← hheld]

/-- What is in the channel can be encoded. -/
theorem Holds.encodes (h : Holds s x) {f : Frame} {rest : List Frame}
    (hq : x.queue = f :: rest) {e : FrameEncodeError} (henc : encodeFrame f s.localBuf = .error e) :
    False := by
  have hfits := h.encodable f (by rw [hq]; exact List.mem_cons_self)
  rw [encodeFrame_eq_ok.mpr ⟨hfits, rfl⟩] at henc
  cases henc

theorem Holds.stepDrain (h : Holds s x) (hs : s.stepDrain = some s') :
    ∃ moves x', Simulates s x .drain s' moves x' := by
  obtain ⟨hp, ⟨hstopped, rfl⟩ | ⟨f, rest, hroom, hinband, hencoded⟩⟩ :=
    WriterState.stepDrain_cases hs
  · have hxp : x.phase = .drain := h.phase.symm.trans hp
    have hstop : x.step .stop = some { x with phase := .flush } := by
      simp [Exchange.step, hxp]
    refine ⟨_, _, .one hstop ⟨rfl, h.localBuf, h.slot, h.socket, h.inband, h.encodable,
      h.stranded, (Exchange.effect_of_step h.round hstop).2⟩ rfl rfl ?_⟩
    refine iff_of_false id fun hover => ?_
    rcases hstopped with hfull | hnil
    · exact Nat.not_lt.mpr hfull hover.2.2.2.1
    · exact hover.2.2.2.2 hnil
  · have hxp : x.phase = .drain := h.phase.symm.trans hp
    have hq : x.queue = f :: rest := h.inband.symm.trans hinband
    rcases hencoded with ⟨buf, henc, rfl⟩ | ⟨e, henc, -⟩
    · have hdraw : x.step .draw =
          some { x with held := x.held ++ [.inr f], queue := rest } := by
        simp [Exchange.step, hxp, hq]
      rw [h.localBuf] at henc
      refine ⟨_, _, .one hdraw ⟨h.phase, encodeFrame_item henc, h.slot, h.socket, rfl,
        fun g hg => h.encodable g (hq ▸ List.mem_cons_of_mem f hg), h.stranded,
        (Exchange.effect_of_step h.round hdraw).2⟩ rfl rfl ?_⟩
      simp [Exchange.Overtakes, WriterState.Overtakes, hp, h.stranded, hq, hinband, hroom]
    · exact (h.encodes hq henc).elim

theorem Holds.stepTake (h : Holds s x) (hs : s.stepTake = some s') :
    ∃ moves x', Simulates s x .take s' moves x' := by
  obtain ⟨hp, rfl⟩ := WriterState.stepTake_cases hs
  have hxp : x.phase = .take := h.phase.symm.trans hp
  have htake : x.step .take = some { x.swap with phase := .drain } := by
    simp [Exchange.step, hxp]
  obtain ⟨hlocal, hslot, hsocket, hinband⟩ := h.swap
  refine ⟨_, _, .one htake ⟨rfl, hlocal, hslot, hsocket, hinband, ?_, h.stranded_swap hxp,
    (Exchange.effect_of_step h.round htake).2⟩ rfl rfl
    (iff_of_false id (s.not_overtakes (by decide)))⟩
  show ∀ f ∈ x.swap.queue, _
  rw [x.swap_queue]
  exact h.encodable

theorem Holds.stepFlush (h : Holds s x) (hs : s.stepFlush .ok = some s') :
    ∃ moves x', Simulates s x (.flush .ok) s' moves x' := by
  have hover : ¬ s.Overtakes (.flush .ok) := s.not_overtakes (by decide)
  have hwritten : s.writeAll .ok = itemBytes (x.out ++ x.held) := by
    rw [WriterState.writeAll, h.socket, h.localBuf, itemBytes_append]
  have hempty : s.localBuf = [] ↔ x.held = [] := by
    rw [← List.isEmpty_iff, h.localBuf, itemBytes_isEmpty, List.isEmpty_iff]
  rcases WriterState.stepFlush_cases hs with
    ⟨hp, hnil, rfl⟩ | ⟨hp, hne, rfl⟩ | ⟨hp, rfl⟩
  · have hflush : x.step .flush = some { x with phase := .wait } := by
      simp [Exchange.step, h.phase.symm.trans hp, hempty.mp hnil]
    exact ⟨_, _, .one hflush ⟨rfl, h.localBuf, h.slot, h.socket, h.inband, h.encodable,
      h.stranded, (Exchange.effect_of_step h.round hflush).2⟩ rfl rfl (iff_of_false id hover)⟩
  · have hflush : x.step .flush =
        some { x with out := x.out ++ x.held, held := [], phase := .take } := by
      simp [Exchange.step, h.phase.symm.trans hp, mt hempty.mpr hne]
    exact ⟨_, _, .one hflush ⟨rfl, rfl, h.slot, hwritten, h.inband, h.encodable, h.stranded,
      (Exchange.effect_of_step h.round hflush).2⟩ rfl rfl (iff_of_false id hover)⟩
  · have hflush : x.step .flush =
        some { x with out := x.out ++ x.held, held := [], phase := .done } := by
      simp [Exchange.step, h.phase.symm.trans hp]
    exact ⟨_, _, .one hflush ⟨rfl, rfl, h.slot, hwritten, h.inband, h.encodable, h.stranded,
      (Exchange.effect_of_step h.round hflush).2⟩ rfl rfl (iff_of_false id hover)⟩

theorem Holds.stepRecv (h : Holds s x) (hs : s.stepRecv = some s') :
    ∃ moves x', Simulates s x .recv s' moves x' := by
  have hover : ¬ s.Overtakes .recv := s.not_overtakes (by decide)
  obtain ⟨hp, ⟨f, rest, buf, hinband, henc, rfl⟩ | ⟨f, rest, e, hinband, henc, -⟩ | ⟨-, rfl⟩⟩ :=
    WriterState.stepRecv_cases hs
  · have hq : x.queue = f :: rest := h.inband.symm.trans hinband
    have hrecv : x.step .recv =
        some { x with held := x.held ++ [.inr f], queue := rest, phase := .take } := by
      simp [Exchange.step, h.phase.symm.trans hp, hq]
    rw [h.localBuf] at henc
    exact ⟨_, _, .one hrecv ⟨rfl, encodeFrame_item henc, h.slot, h.socket, rfl,
      fun g hg => h.encodable g (hq ▸ List.mem_cons_of_mem f hg), h.stranded,
      (Exchange.effect_of_step h.round hrecv).2⟩ rfl rfl (iff_of_false id hover)⟩
  · exact (h.encodes (h.inband.symm.trans hinband) henc).elim
  · have hxp : x.phase = .wait := h.phase.symm.trans hp
    have hclose : x.step .close = some { x.swap with phase := .last } := by
      simp [Exchange.step, hxp]
    obtain ⟨hheld, hrights⟩ := h.round.waiting hxp
    obtain ⟨hlocal, hslot, hsocket, hqueue⟩ := h.swap
    -- nothing was held, so the swap leaves the slot empty
    have hshared : Exchange.rights x.swap.shared = [] := by
      unfold Exchange.swap
      split
      · exact hrights
      · simp [hheld]
    have hstranded : s.swap.stranded = s.stranded := by
      unfold WriterState.swap
      split <;> rfl
    refine ⟨_, _, .one hclose ⟨rfl, hlocal, hslot, hsocket, hqueue, ?_, ?_,
      (Exchange.effect_of_step h.round hclose).2⟩ rfl rfl (iff_of_false id hover)⟩
    · show ∀ f ∈ x.swap.queue, _
      rw [x.swap_queue]
      exact h.encodable
    · show s.swap.stranded = true ↔ Exchange.rights x.swap.shared ≠ []
      rw [hstranded, h.stranded, hshared, hrights]

/-- **The task is an exchange of frames**, step by step. -/
theorem Holds.step (h : Holds s x) (hclean : a.Clean) (hs : s.step a = some s') :
    ∃ moves x', Simulates s x a s' moves x' := by
  cases a with
  | push d =>
    cases hs
    have hover : ¬ s.Overtakes (.push d) := s.not_overtakes (by simp)
    have hslot := makeDeliverEncoder_eq s.slot d
    cases hframe : d.frame? with
    | none =>
      rw [hframe] at hslot
      have hsame : makeDeliverEncoder s.slot d.qos d.tag d.topic d.payload = s.slot := by
        simpa using hslot
      refine ⟨_, _, .none ⟨h.phase, h.localBuf, hsame.trans h.slot, h.socket, h.inband,
        h.encodable, h.stranded, h.round⟩ ?_ rfl hover⟩
      simp [WriterAction.pushed, hframe]
    | some f =>
      rw [hframe, h.slot] at hslot
      have hpush : x.step (.push f) = some { x with shared := x.shared ++ [.inl f] } := rfl
      refine ⟨_, _, .one hpush ⟨h.phase, h.localBuf, ?_, h.socket, h.inband, h.encodable, ?_,
        (Exchange.effect_of_step h.round hpush).2⟩ ?_ rfl (iff_of_false id hover)⟩
      · show makeDeliverEncoder s.slot d.qos d.tag d.topic d.payload = _
        rw [h.slot, hslot, itemBytes_append]
        simp [itemBytes, Item.bytes]
      · simpa using h.stranded
      · simp [WriterAction.pushed, hframe, Exchange.Move.pushed]
  | notify =>
    obtain ⟨-, ⟨⟩⟩ := Option.ite_none_right_eq_some.mp hs
    exact ⟨_, _, .none ⟨h.phase, h.localBuf, h.slot, h.socket, h.inband, h.encodable,
      h.stranded, h.round⟩ rfl rfl (s.not_overtakes (by simp))⟩
  | send frame =>
    obtain ⟨-, ⟨⟩⟩ := Option.ite_none_right_eq_some.mp hs
    have hsend : x.step (.send frame) = some { x with queue := x.queue ++ [frame] } := rfl
    exact ⟨_, _, .one hsend ⟨h.phase, h.localBuf, h.slot, h.socket,
      congrArg (· ++ [frame]) h.inband, forall_mem_concat h.encodable hclean, h.stranded,
      (Exchange.effect_of_step h.round hsend).2⟩ rfl rfl
      (iff_of_false id (s.not_overtakes (by simp)))⟩
  | dropSender =>
    cases hs
    exact ⟨_, _, .none ⟨h.phase, h.localBuf, h.slot, h.socket, h.inband, h.encodable,
      h.stranded, h.round⟩ rfl rfl (s.not_overtakes (by simp))⟩
  | take => exact h.stepTake hs
  | drain => exact h.stepDrain hs
  | flush result =>
    cases result with
    | ok => exact h.stepFlush hs
    | failed written => exact hclean.elim
  | wake =>
    obtain ⟨hp, ⟨⟩⟩ := Option.ite_none_right_eq_some.mp hs
    have hwake : x.step .wake = some { x with phase := .take } := by
      simp [Exchange.step, h.phase.symm.trans hp.1]
    exact ⟨_, _, .one hwake ⟨rfl, h.localBuf, h.slot, h.socket, h.inband, h.encodable,
      h.stranded, (Exchange.effect_of_step h.round hwake).2⟩ rfl rfl
      (iff_of_false id (s.not_overtakes (by simp)))⟩
  | recv => exact h.stepRecv hs
  | shutdown => exact hclean.elim

end Step

/-! ## Runs -/

/-- What a run of exchange moves says about a run of the task. -/
structure RunOf (acts : List WriterAction) (s₀ s : WriterState) (x₀ x : Exchange Frame Frame)
    (moves : List (Exchange.Move Frame Frame)) : Prop where
  run : run Exchange.step x₀ moves = some x
  holds : Holds s x
  pushed : Exchange.pushes moves = pushedFrames acts
  sent : Exchange.sends moves = sentFrames acts
  order : Meets Exchange.step (fun x m => ¬ x.Overtakes m) x₀ moves ↔
    Meets WriterState.step (fun s a => ¬ s.Overtakes a) s₀ acts

variable {s : WriterState}

theorem Holds.run {acts : List WriterAction} {s₀ : WriterState} {x₀ : Exchange Frame Frame}
    (h : Holds s₀ x₀) (hclean : ∀ a ∈ acts, a.Clean)
    (hrun : BlipMQ.run WriterState.step s₀ acts = some s) :
    ∃ moves x, RunOf acts s₀ s x₀ x moves := by
  induction acts generalizing s₀ x₀ with
  | nil =>
    cases hrun
    exact ⟨[], x₀, rfl, h, rfl, rfl, iff_of_true trivial trivial⟩
  | cons a acts ih =>
    obtain ⟨t, ht, hrest⟩ := run_cons.mp hrun
    obtain ⟨m, y, hsim⟩ := h.step (hclean a (by simp)) ht
    obtain ⟨ms, x, hms⟩ := ih hsim.holds (fun b hb => hclean b (by simp [hb])) hrest
    refine ⟨m ++ ms, x, run_append.mpr ⟨y, hsim.run, hms.run⟩, hms.holds, ?_, ?_, ?_⟩
    · have hpushed := hsim.pushed
      have hpushed' := hms.pushed
      simp only [Exchange.pushes, pushedFrames] at hpushed hpushed' ⊢
      rw [List.flatMap_append, hpushed, hpushed', List.flatMap_cons]
    · have hsent := hsim.sent
      have hsent' := hms.sent
      simp only [Exchange.sends, sentFrames] at hsent hsent' ⊢
      rw [List.flatMap_append, hsent, hsent', List.flatMap_cons]
    · rw [meets_append, hsim.order]
      refine and_congr_right fun _ => ?_
      constructor
      · intro hmeets t' ht'
        obtain rfl := Option.some.inj (ht.symm.trans ht')
        exact hms.order.mp (hmeets y hsim.run)
      · intro hmeets y' hy'
        obtain rfl := Option.some.inj (hsim.run.symm.trans hy')
        exact hms.order.mpr (hmeets t ht)

theorem holds_start : Holds .start .start :=
  ⟨rfl, rfl, rfl, rfl, rfl, by simp [Exchange.start], by simp [WriterState.start, Exchange.start],
    Exchange.Traced.start.round⟩

theorem clean_run {acts : List WriterAction} (hclean : ∀ a ∈ acts, a.Clean)
    (hrun : run WriterState.step .start acts = some s) :
    ∃ moves x, RunOf acts .start s .start x moves :=
  holds_start.run hclean hrun

/-- The buffers of the task as lists of frames. -/
structure Buffers (s : WriterState) (out held shared : List Item) : Prop where
  socket : s.socket = itemBytes out
  localBuf : s.localBuf = itemBytes held
  slot : s.slot = itemBytes shared

theorem Holds.buffers {x : Exchange Frame Frame} (h : Holds s x) :
    Buffers s x.out x.held x.shared :=
  ⟨h.socket, h.localBuf, h.slot⟩

/-- **The writer neither loses, duplicates nor tears frames.** What is on the
socket, in the two buffers and in the channel are whole frames, each as often
as it was pushed or sent, and the DELIVER frames are in the order of the
pushes. -/
theorem writer_conserves_frames {acts : List WriterAction} {s : WriterState}
    (hclean : ∀ a ∈ acts, a.Clean) (hrun : run WriterState.step .start acts = some s) :
    ∃ out held shared : List Item, Buffers s out held shared ∧
      (out ++ held ++ shared ++ s.inband.map Sum.inr).Perm
        ((pushedFrames acts).map Sum.inl ++ (sentFrames acts).map Sum.inr) ∧
      Exchange.lefts out <+: pushedFrames acts := by
  obtain ⟨moves, x, h⟩ := clean_run hclean hrun
  obtain ⟨hperm, hlefts⟩ := Exchange.conserved h.run
  rw [h.pushed] at hperm hlefts
  rw [h.sent] at hperm
  refine ⟨x.out, x.held, x.shared, h.holds.buffers, ?_, ?_⟩
  · rw [h.holds.inband]
    exact hperm
  · rw [← hlefts, Exchange.line, Exchange.lefts_append, Exchange.lefts_append, List.append_assoc]
    exact List.prefix_append _ _

/-- A response comes while the task waits, a message is pushed before the task
looks into the slot again, and a second response comes after that. -/
def overtakingRun : List WriterAction :=
  [.take, .drain, .flush .ok, .send ⟨.pong, 1, []⟩, .recv, .push ⟨.atMostOnce, 1, "a", [7]⟩,
    .take, .send ⟨.pong, 2, []⟩, .notify, .drain, .drain, .flush .ok, .take, .drain, .flush .ok]

/-- In that run three frames come in and are written. -/
theorem writer_conserves_frames_three :
    pushedFrames overtakingRun = [deliverFrame 0 1 "a" [7]] ∧
      sentFrames overtakingRun = [⟨.pong, 1, []⟩, ⟨.pong, 2, []⟩] ∧
      ∃ s, run WriterState.step .start overtakingRun = some s ∧
        ∃ out held shared : List Item, Buffers s out held shared ∧
          (out ++ held ++ shared ++ s.inband.map Sum.inr).Perm
            ((pushedFrames overtakingRun).map Sum.inl ++
              (sentFrames overtakingRun).map Sum.inr) ∧
          Exchange.lefts out <+: pushedFrames overtakingRun := by
  have hsome : (run WriterState.step .start overtakingRun).isSome := by decide +kernel
  obtain ⟨s, hs⟩ := Option.isSome_iff_exists.mp hsome
  exact ⟨by decide +kernel, by decide +kernel, s, hs,
    writer_conserves_frames (by decide +kernel) hs⟩

/-- **The order of responses** is kept as long as no response is encoded while an
earlier one is in the slot, and lost as soon as one is. -/
theorem inband_order_iff_no_overtaking {acts : List WriterAction} {s : WriterState}
    (hclean : ∀ a ∈ acts, a.Clean) (hrun : run WriterState.step .start acts = some s) :
    ∃ out held shared : List Item, Buffers s out held shared ∧
      (Meets WriterState.step (fun s a => ¬ s.Overtakes a) .start acts →
        Exchange.rights out <+: sentFrames acts) ∧
      (¬ Meets WriterState.step (fun s a => ¬ s.Overtakes a) .start acts →
        ∃ f g, [f, g].Sublist (sentFrames acts) ∧
          [g, f].Sublist (Exchange.rights (out ++ held ++ shared))) := by
  obtain ⟨moves, x, h⟩ := clean_run hclean hrun
  refine ⟨x.out, x.held, x.shared, h.holds.buffers, ?_, ?_⟩
  · intro hmeets
    have horder := Exchange.inOrder_of_meets h.run (h.order.mpr hmeets)
    rw [h.sent] at horder
    rw [← horder, Exchange.line, Exchange.rights_append, Exchange.rights_append,
      List.append_assoc, List.append_assoc]
    exact List.prefix_append _ _
  · intro hover
    obtain ⟨f, g, hsent, hline⟩ :=
      Exchange.disordered_of_not_meets h.run fun hmeets => hover (h.order.mp hmeets)
    rw [h.sent] at hsent
    exact ⟨f, g, hsent, hline⟩

/-- The same responses and the same message, and the second response comes after the
next swap: the message goes into the slot while the first response is in the local
buffer, the two are swapped, and both are out when the second is encoded. -/
def swappedRun : List WriterAction :=
  [.take, .drain, .flush .ok, .send ⟨.pong, 1, []⟩, .recv, .push ⟨.atMostOnce, 1, "a", [7]⟩,
    .take, .notify, .drain, .flush .ok, .take, .send ⟨.pong, 2, []⟩, .drain, .drain, .flush .ok]

theorem inband_order_iff_no_overtaking_two :
    pushedFrames swappedRun = [deliverFrame 0 1 "a" [7]] ∧
      ∃ s, run WriterState.step .start swappedRun = some s ∧
        ∃ out : List Item, s.socket = itemBytes out ∧
          Exchange.rights out <+: [⟨.pong, 1, []⟩, ⟨.pong, 2, []⟩] := by
  have hsome : (run WriterState.step .start swappedRun).isSome := by decide +kernel
  obtain ⟨s, hs⟩ := Option.isSome_iff_exists.mp hsome
  obtain ⟨out, _, _, hbufs, hkept, -⟩ := inband_order_iff_no_overtaking (by decide +kernel) hs
  exact ⟨by decide +kernel, s, hs, out, hbufs.socket, hkept (by decide +kernel)⟩

/-- **The second response is written before the first**, and both are written. -/
theorem second_response_first :
    sentFrames overtakingRun = [⟨.pong, 1, []⟩, ⟨.pong, 2, []⟩] ∧
      ∃ s, run WriterState.step .start overtakingRun = some s ∧
        decodeFrames s.socket =
          ([deliverFrame 0 1 "a" [7], ⟨.pong, 2, []⟩, ⟨.pong, 1, []⟩], .ok []) := by
  refine ⟨by decide +kernel, ?_⟩
  have hsocket : (run WriterState.step .start overtakingRun).map WriterState.socket =
      some ([deliverFrame 0 1 "a" [7], ⟨.pong, 2, []⟩, ⟨.pong, 1, []⟩].flatMap frameBytes) := by
    decide +kernel
  obtain ⟨s, hs, hwritten⟩ := Option.map_eq_some_iff.mp hsocket
  refine ⟨s, hs, ?_⟩
  rw [hwritten]
  exact decodeFrames_flatMap (by decide +kernel) (by decide +kernel)

end BlipMQ.Net
