import BlipMQ.Lib.Machine
import BlipMQ.Net.Publish

/-!
# Net — the reader of a connection

The reader takes the decoded frames of one connection in their order. HELLO
and AUTH it handles itself; every other frame goes to the message handler
once the connection is authenticated. Answers go through a channel to the
writer task. An error ends the connection.
-/

namespace BlipMQ.Net

open BlipMQ.Core

def maxAuthFailures : Nat := 5

/-! ## The reader -/

/-- The message handler, with a state of its own. The buffer and the encoder a
subscription is given belong to the connection and are left out. -/
structure MessageHandler (σ : Type) where
  handlePublishFast : σ → Nat → Frame → PublishTopicCache →
    (σ × PublishTopicCache) × Except Error (Option Frame)
  handleSubscribeSlot : σ → Nat → Frame → σ × Except Error FrameResponse
  handleFrame : σ → Nat → Frame → σ × Except Error FrameResponse

structure ReaderState (σ : Type) where
  id : Nat
  handler : σ
  helloPerformed : Bool
  authenticated : Bool
  authFailures : Nat
  topicCache : PublishTopicCache

def ReaderState.new {σ : Type} (id : Nat) (handler : σ) : ReaderState σ :=
  ⟨id, handler, false, false, 0, .default⟩

inductive HandlerCall where
  | publishFast
  | subscribeSlot
  | handleFrame
  deriving DecidableEq, Repr

/-- What the processing of one frame shows: the calls of the handler, the frames
the writer took, and the result. -/
structure Handled where
  calls : List HandlerCall
  sent : List Frame
  result : Except Error Unit
  deriving DecidableEq, Repr

/-- A decoded frame; is the writer task still there when it is processed? -/
structure Input where
  frame : Frame
  writerOpen : Bool
  deriving DecidableEq, Repr

/-- `send_inband`. -/
def sendInband (i : Input) (frame : Frame) : Handled :=
  if i.writerOpen then ⟨[], [frame], .ok ()⟩
  else ⟨[], [], .error (.io .brokenPipe "writer task closed")⟩

def sendAck (i : Input) : Handled :=
  match (AckPayload.mk 0).encode with
  | .error e => ⟨[], [], .error (.frameEncode e)⟩
  | .ok payload => sendInband i ⟨.ack, i.frame.correlationId, payload⟩

def sendNack (i : Input) (code : Nat) (message : String) : Handled :=
  match (NackPayload.mk code message).encode with
  | .error e => ⟨[], [], .error (.frameEncode e)⟩
  | .ok payload => sendInband i ⟨.nack, i.frame.correlationId, payload⟩

namespace ReaderState

variable {σ : Type}

def handleHello (s : ReaderState σ) (i : Input) : ReaderState σ × Handled :=
  if s.helloPerformed then (s, sendNack i 400 "HELLO already performed")
  else
    match HelloPayload.decode i.frame.payload with
    | .ok payload =>
      if payload.protocolVersion ≠ protocolVersion then
        (s, sendNack i 426 "unsupported protocol version")
      else ({ s with helloPerformed := true }, sendAck i)
    | .error _ => (s, sendNack i 400 "invalid HELLO payload")

/-- The answer to a rejected key goes out after a delay, and the fifth one ends
the connection. -/
def handleAuth (validate : String → Bool) (s : ReaderState σ) (i : Input) :
    ReaderState σ × Handled :=
  if !s.helloPerformed then (s, sendNack i 400 "HELLO not performed")
  else if s.authenticated then (s, sendNack i 400 "already authenticated")
  else
    match AuthPayload.decode i.frame.payload with
    | .error _ => (s, sendNack i 400 "invalid AUTH payload")
    | .ok payload =>
      if validate payload.apiKey then
        ({ s with authenticated := true, authFailures := 0 }, sendAck i)
      else
        -- `saturating_add`; the count goes up before the answer is sent
        let s := { s with authFailures := min (s.authFailures + 1) (2 ^ 32 - 1) }
        let out := sendNack i 401 "invalid API key"
        match out.result with
        | .error _ => (s, out)
        | .ok () =>
          if maxAuthFailures ≤ s.authFailures then
            let tooMany : Error := .io .permissionDenied "too many failed AUTH attempts"
            (s, { out with result := .error tooMany })
          else (s, out)

/-- What is done with the response of the handler. -/
def respond (i : Input) : Except Error FrameResponse → Handled
  | .ok .none => ⟨[], [], .ok ()⟩
  | .ok (.frame resp) => sendInband i resp
  | .error e => ⟨[], [], .error e⟩

/-- The same, after a call of the handler. -/
def after (call : HandlerCall) (h : Handled) : Handled := { h with calls := call :: h.calls }

/-- The frame is given to the handler. -/
def dispatch (H : MessageHandler σ) (s : ReaderState σ) (i : Input) : ReaderState σ × Handled :=
  if i.frame.msgType = .subscribe then
    let out := H.handleSubscribeSlot s.handler s.id i.frame
    ({ s with handler := out.1 }, after .subscribeSlot (respond i out.2))
  else
    let out := H.handleFrame s.handler s.id i.frame
    ({ s with handler := out.1 }, after .handleFrame (respond i out.2))

def processFrame (H : MessageHandler σ) (validate : String → Bool) (s : ReaderState σ)
    (i : Input) : ReaderState σ × Handled :=
  match i.frame.msgType with
  | .hello => s.handleHello i
  | .auth => s.handleAuth validate i
  | _ =>
    -- HELLO and AUTH apart, no frame reaches the handler before this test
    if !s.authenticated then (s, sendNack i 401 "unauthenticated")
    else if i.frame.msgType = .publish then
      let out := H.handlePublishFast s.handler s.id i.frame s.topicCache
      let s := { s with handler := out.1.1, topicCache := out.1.2 }
      match out.2 with
      | .ok none => (s, after .publishFast ⟨[], [], .ok ()⟩)
      | .ok (some nack) => (s, after .publishFast (sendInband i nack))
      -- the publish has to be awaited: the frame takes the general path
      | .error (.io .unsupported _) =>
        let out := s.dispatch H i
        (out.1, after .publishFast out.2)
      | .error e => (s, after .publishFast ⟨[], [], .error e⟩)
    else s.dispatch H i

end ReaderState

/-! ## The connection -/

/-- The reader's loop, which an error ends. -/
structure Connection (σ : Type) where
  reader : ReaderState σ
  closed : Bool

namespace Connection

variable {σ : Type}

def new (id : Nat) (handler : σ) : Connection σ := ⟨.new id handler, false⟩

/-- One frame; `none` if it is not processed any more. -/
def step (H : MessageHandler σ) (validate : String → Bool) (c : Connection σ) (i : Input) :
    Connection σ × Option Handled :=
  if c.closed then (c, none)
  else
    let out := c.reader.processFrame H validate i
    (⟨out.1, !out.2.result.isOk⟩, some out.2)

end Connection

/-! ## What a frame can do -/

def ackFrame (i : Input) : Frame := ⟨.ack, i.frame.correlationId, beBytes 8 0⟩

def nackFrame (i : Input) (code : Nat) (message : String) : Frame :=
  ⟨.nack, i.frame.correlationId,
    beBytes 2 code ++ (beBytes 2 (utf8 message).length ++ utf8 message)⟩

theorem sendNack_eq (i : Input) (code : Nat) {message : String}
    (h : (utf8 message).length < 2 ^ 16) :
    sendNack i code message = sendInband i (nackFrame i code message) := by
  unfold sendNack NackPayload.encode
  simp only [if_neg (Nat.not_le.mpr h)]
  rfl

/-- The answer to the key that was rejected as the `failures`-th. -/
def rejection (i : Input) (failures : Nat) : Handled :=
  let out := sendInband i (nackFrame i 401 "invalid API key")
  if i.writerOpen && maxAuthFailures ≤ failures then
    { out with result := .error (.io .permissionDenied "too many failed AUTH attempts") }
  else out

namespace ReaderState

variable {σ : Type}

/-- Every way a frame can be processed. -/
inductive Processed (validate : String → Bool) (s : ReaderState σ) (i : Input) :
    ReaderState σ × Handled → Prop
  | hello (htype : i.frame.msgType = .hello)
      (hversion : HelloPayload.decode i.frame.payload = .ok ⟨protocolVersion⟩) :
      Processed validate s i ({ s with helloPerformed := true }, sendInband i (ackFrame i))
  | auth (key : String) (htype : i.frame.msgType = .auth) (hhello : s.helloPerformed = true)
      (hkey : AuthPayload.decode i.frame.payload = .ok ⟨key⟩) (hvalid : validate key = true) :
      Processed validate s i
        ({ s with authenticated := true, authFailures := 0 }, sendInband i (ackFrame i))
  | reject (failures : Nat) (htype : i.frame.msgType = .auth) (hauth : s.authenticated = false)
      (hcount : failures = min (s.authFailures + 1) (2 ^ 32 - 1)) :
      Processed validate s i ({ s with authFailures := failures }, rejection i failures)
  | nack (code : Nat) (message : String) (hcode : code < 2 ^ 16)
      (hother : i.frame.msgType = .auth → code ≠ 401) :
      Processed validate s i (s, sendInband i (nackFrame i code message))
  | handler (s' : ReaderState σ) (h : Handled) (hauth : s.authenticated = true)
      (htype : i.frame.msgType ≠ .auth)
      (hflags : s'.helloPerformed = s.helloPerformed ∧ s'.authenticated = s.authenticated) :
      Processed validate s i (s', h)

section Processed

variable {H : MessageHandler σ} {validate : String → Bool} {s : ReaderState σ} {i : Input}

theorem handleHello_cases (htype : i.frame.msgType = .hello) :
    Processed validate s i (s.handleHello i) := by
  have hnack : ∀ code message, code < 2 ^ 16 → (utf8 message).length < 2 ^ 16 →
      Processed validate s i (s, sendNack i code message) := by
    intro code message hcode hlen
    rw [sendNack_eq i code hlen]
    refine .nack code message hcode fun hauth => ?_
    rw [htype] at hauth
    cases hauth
  unfold handleHello
  split
  · exact hnack 400 _ (by decide) (by decide)
  · split
    · rename_i payload hdecode
      split
      · exact hnack 426 _ (by decide) (by decide)
      · rename_i hversion
        rw [not_not] at hversion
        refine .hello htype (hdecode.trans ?_)
        rw [← hversion]
    · exact hnack 400 _ (by decide) (by decide)

theorem handleAuth_cases (htype : i.frame.msgType = .auth) :
    Processed validate s i (s.handleAuth validate i) := by
  have hnack : ∀ message, (utf8 message).length < 2 ^ 16 →
      Processed validate s i (s, sendNack i 400 message) := by
    intro message hlen
    rw [sendNack_eq i 400 hlen]
    exact .nack 400 message (by decide) fun _ => by decide
  unfold handleAuth
  split
  · exact hnack _ (by decide)
  · rename_i hhello
    split
    · exact hnack _ (by decide)
    · rename_i hauth
      split
      · exact hnack _ (by decide)
      · rename_i payload hdecode
        split
        · rename_i hvalid
          exact .auth payload.apiKey htype (by simpa using hhello) hdecode hvalid
        · have hreject : Processed validate s i ({ s with
              authFailures := min (s.authFailures + 1) (2 ^ 32 - 1) }, rejection i _) :=
            .reject _ htype (by simpa using hauth) rfl
          dsimp only
          rw [sendNack_eq i 401 (by decide)]
          unfold rejection sendInband at hreject
          unfold sendInband
          -- without a writer the NACK fails, and the count is not looked at any more
          cases hopen : i.writerOpen with
          | false => simpa [hopen] using hreject
          | true =>
            simp only [hopen, if_true, Bool.true_and, decide_eq_true_eq] at hreject ⊢
            split
            · rename_i hmax
              rwa [if_pos hmax] at hreject
            · rename_i hmax
              rwa [if_neg hmax] at hreject

theorem dispatch_flags (s : ReaderState σ) (i : Input) :
    (s.dispatch H i).1.helloPerformed = s.helloPerformed ∧
      (s.dispatch H i).1.authenticated = s.authenticated := by
  unfold dispatch
  split <;> exact ⟨rfl, rfl⟩

theorem processFrame_cases (H : MessageHandler σ) (validate : String → Bool) (s : ReaderState σ)
    (i : Input) : Processed validate s i (s.processFrame H validate i) := by
  unfold processFrame
  split
  · rename_i htype
    exact handleHello_cases htype
  · rename_i htype
    exact handleAuth_cases htype
  · rename_i _ htype
    split
    · rw [sendNack_eq i 401 (by decide)]
      exact .nack 401 _ (by decide) fun hauth => absurd hauth htype
    · rename_i hauth
      have hauth' : s.authenticated = true := by simpa using hauth
      split
      · dsimp only
        split
        · exact .handler _ _ hauth' htype ⟨rfl, rfl⟩
        · exact .handler _ _ hauth' htype ⟨rfl, rfl⟩
        · exact .handler _ _ hauth' htype (dispatch_flags _ i)
        · exact .handler _ _ hauth' htype ⟨rfl, rfl⟩
      · exact .handler _ _ hauth' htype (dispatch_flags s i)

end Processed

end ReaderState

/-! ## The history of a connection -/

/-- A frame and what became of it. -/
abbrev Entry := Input × Option Handled

/-- A HELLO with the server's own version, answered by an ACK. -/
def HelloAccepted (e : Entry) : Prop :=
  e.1.frame.msgType = .hello ∧
    HelloPayload.decode e.1.frame.payload = .ok ⟨protocolVersion⟩ ∧
    e.2 = some ⟨[], [ackFrame e.1], .ok ()⟩

/-- An AUTH with a key the validator accepts, answered by an ACK. -/
def AuthAccepted (validate : String → Bool) (e : Entry) : Prop :=
  e.1.frame.msgType = .auth ∧
    (∃ key, AuthPayload.decode e.1.frame.payload = .ok ⟨key⟩ ∧ validate key = true) ∧
    e.2 = some ⟨[], [ackFrame e.1], .ok ()⟩

/-- A HELLO was accepted and after it an AUTH. -/
def Opened (validate : String → Bool) (before : List Entry) : Prop :=
  ∃ l₁ hello l₂ auth l₃, before = l₁ ++ hello :: (l₂ ++ auth :: l₃) ∧
    HelloAccepted hello ∧ AuthAccepted validate auth

def nackCode (f : Frame) : Option Nat :=
  if f.msgType = .nack then some (beNat (f.payload.take 2)) else none

/-- An AUTH answered with 401. -/
def AuthRejected (e : Entry) : Bool :=
  e.1.frame.msgType = .auth &&
    e.2.any fun h => h.sent.any fun f => nackCode f = some 401

/-- The frame gets exactly one ACK or NACK with its own correlation id; without a
writer nothing can be sent, and the connection ends. -/
def AnsweredOnce (i : Input) (h : Handled) : Prop :=
  if i.writerOpen then
    ∃ f, h.sent = [f] ∧ f.correlationId = i.frame.correlationId ∧
      (f.msgType = .ack ∨ f.msgType = .nack)
  else h.sent = [] ∧ h.result = .error (.io .brokenPipe "writer task closed")

theorem Opened.append {validate : String → Bool} {before : List Entry}
    (h : Opened validate before) (later : List Entry) : Opened validate (before ++ later) := by
  obtain ⟨l₁, hello, l₂, auth, l₃, rfl, hhello, hauth⟩ := h
  exact ⟨l₁, hello, l₂, auth, l₃ ++ later, by simp, hhello, hauth⟩

namespace Connection

variable {σ : Type}

/-- What the flags of an open connection say about its history. -/
structure Gate (validate : String → Bool) (c : Connection σ) (before : List Entry) : Prop where
  order : c.reader.authenticated = true → c.reader.helloPerformed = true
  hello : c.closed = false → c.reader.helloPerformed = true → ∃ e ∈ before, HelloAccepted e
  auth : c.closed = false → c.reader.authenticated = true → Opened validate before
  failures : c.closed = false → c.reader.authenticated = false →
    before.countP AuthRejected = c.reader.authFailures
  limit : c.closed = false → before.countP AuthRejected < maxAuthFailures

theorem Gate.new (validate : String → Bool) (id : Nat) (handler : σ) :
    Gate validate (Connection.new id handler) [] :=
  ⟨nofun, nofun, nofun, fun _ _ => rfl, fun _ => by decide⟩

section Step

variable {H : MessageHandler σ} {validate : String → Bool} {c c' : Connection σ}
  {before : List Entry} {i : Input} {e : Entry}

theorem sendInband_ok {f : Frame} (h : (sendInband i f).result.isOk = true) :
    sendInband i f = ⟨[], [f], .ok ()⟩ := by
  unfold sendInband at h ⊢
  split at h
  · rename_i hopen
    rw [if_pos hopen]
  · cases h

theorem rejection_ok {failures : Nat} (h : (rejection i failures).result.isOk = true) :
    rejection i failures = ⟨[], [nackFrame i 401 "invalid API key"], .ok ()⟩ ∧
      failures < maxAuthFailures := by
  unfold rejection at h ⊢
  dsimp only at h ⊢
  split at h
  · cases h
  · rename_i hnot
    have hsent := sendInband_ok h
    have hopen : i.writerOpen = true := by
      by_contra hclosed
      rw [sendInband, if_neg hclosed] at h
      cases h
    rw [if_neg hnot]
    refine ⟨hsent, ?_⟩
    simpa [hopen] using hnot

theorem nackCode_nackFrame {code : Nat} (h : code < 2 ^ 16) (i : Input) (message : String) :
    nackCode (nackFrame i code message) = some code := by
  have hbytes : (nackFrame i code message).payload.take 2 = beBytes 2 code := by
    show List.take 2 (beBytes 2 code ++ _) = _
    rw [List.take_append_of_le_length (by simp), List.take_of_length_le (by simp)]
  have htype : (nackFrame i code message).msgType = .nack := rfl
  rw [nackCode, if_pos htype, hbytes, beNat_beBytes (by simpa using h)]

theorem countP_concat_of_not (h : AuthRejected e = false) :
    (before ++ [e]).countP AuthRejected = before.countP AuthRejected := by
  rw [List.countP_append, List.countP_singleton, h]
  simp

/-- A frame that leaves the flags alone and is no AUTH answered with 401. -/
theorem Gate.keep (h : Gate validate c before) (hopen : c.closed = false)
    (hhello : c'.reader.helloPerformed = c.reader.helloPerformed)
    (hauth : c'.reader.authenticated = c.reader.authenticated)
    (hfailures : c.reader.authenticated = false → c'.reader.authFailures = c.reader.authFailures)
    (hrejected : AuthRejected e = false) : Gate validate c' (before ++ [e]) := by
  refine ⟨?_, ?_, ?_, ?_, ?_⟩
  · rw [hhello, hauth]
    exact h.order
  · intro _ hs
    obtain ⟨e', hmem, he'⟩ := h.hello hopen (hhello ▸ hs)
    exact ⟨e', List.mem_append_left _ hmem, he'⟩
  · intro _ hs
    exact (h.auth hopen (hauth ▸ hs)).append [e]
  · intro _ hs
    rw [hauth] at hs
    rw [countP_concat_of_not hrejected, hfailures hs]
    exact h.failures hopen hs
  · intro _
    rw [countP_concat_of_not hrejected]
    exact h.limit hopen

theorem not_rejected_of_type {h : Option Handled} (htype : i.frame.msgType ≠ .auth) :
    AuthRejected (i, h) = false := by
  simp [AuthRejected, htype]

theorem not_rejected_of_sent {f : Frame} {h : Handled} (hsent : h = sendInband i f)
    (hcode : nackCode f ≠ some 401) : AuthRejected (i, some h) = false := by
  subst hsent
  unfold AuthRejected sendInband
  split <;> simp [hcode]

/-- Each way to process a frame keeps the flags and the history together. -/
theorem Gate.processed (h : Gate validate c before) (hopen : c.closed = false)
    {out : ReaderState σ × Handled} (hout : c.reader.Processed validate i out) :
    Gate validate ⟨out.1, !out.2.result.isOk⟩ (before ++ [(i, some out.2)]) := by
  have hack : nackCode (ackFrame i) ≠ some 401 := by simp [nackCode, ackFrame]
  have hok : ∀ {handled : Handled}, (!handled.result.isOk) = false →
      handled.result.isOk = true := fun h => by simpa using h
  cases hout with
  | hello htype hversion =>
    have hrejected : AuthRejected (i, some (sendInband i (ackFrame i))) = false :=
      not_rejected_of_sent rfl hack
    refine ⟨fun _ => rfl, fun hok' _ => ?_, fun _ hs => ?_, fun _ hs => ?_, fun _ => ?_⟩
    · refine ⟨_, List.mem_append_right _ (List.mem_singleton_self _), htype, hversion, ?_⟩
      exact congrArg some (sendInband_ok (hok hok'))
    · exact (h.auth hopen hs).append _
    · rw [countP_concat_of_not hrejected]
      exact h.failures hopen hs
    · rw [countP_concat_of_not hrejected]
      exact h.limit hopen
  | auth key htype hhello hkey hvalid =>
    have hrejected : AuthRejected (i, some (sendInband i (ackFrame i))) = false :=
      not_rejected_of_sent rfl hack
    obtain ⟨e, he, haccepted⟩ := h.hello hopen hhello
    refine ⟨fun _ => hhello, fun _ _ => ?_, fun hok' _ => ?_, nofun, fun _ => ?_⟩
    · exact ⟨e, List.mem_append_left _ he, haccepted⟩
    · obtain ⟨l₁, l₂, rfl⟩ := List.append_of_mem he
      refine ⟨l₁, e, l₂, (i, some (sendInband i (ackFrame i))), [], by simp, haccepted, ?_⟩
      exact ⟨htype, ⟨key, hkey, hvalid⟩, congrArg some (sendInband_ok (hok hok'))⟩
    · rw [countP_concat_of_not hrejected]
      exact h.limit hopen
  | reject failures htype hauth hcount =>
    have hlimit := h.limit hopen
    have hfailures := h.failures hopen hauth
    -- if the connection stays open, the answer went out and was not the fifth
    have hopen' : (!(rejection i failures).result.isOk) = false →
        (before ++ [(i, some (rejection i failures))]).countP AuthRejected = failures ∧
          failures < maxAuthFailures := by
      intro hok'
      obtain ⟨heq, hlt⟩ := rejection_ok (hok hok')
      have hrejected : AuthRejected (i, some (rejection i failures)) = true := by
        rw [heq]
        simp [AuthRejected, htype, nackCode_nackFrame]
      rw [List.countP_append, List.countP_singleton, hrejected, hfailures, hcount]
      unfold maxAuthFailures at hlimit
      refine ⟨?_, hcount ▸ hlt⟩
      simp only [if_true]
      omega
    refine ⟨h.order, fun _ hs => ?_, fun _ hs => ?_, fun hok' _ => (hopen' hok').1, fun hok' => ?_⟩
    · obtain ⟨e, he, haccepted⟩ := h.hello hopen hs
      exact ⟨e, List.mem_append_left _ he, haccepted⟩
    · exact absurd (hauth.symm.trans hs) (by decide)
    · rw [(hopen' hok').1]
      exact (hopen' hok').2
  | nack code message hcode hother =>
    refine h.keep hopen rfl rfl (fun _ => rfl) ?_
    by_cases htype : i.frame.msgType = .auth
    · refine not_rejected_of_sent rfl ?_
      rw [nackCode_nackFrame hcode]
      exact fun heq => hother htype (Option.some.inj heq)
    · exact not_rejected_of_type htype
  | handler s' handled hauth htype hflags =>
    refine h.keep hopen hflags.1 hflags.2 (fun hs => ?_) (not_rejected_of_type htype)
    exact absurd (hauth.symm.trans hs) (by decide)

theorem Gate.step (h : Gate validate c before) (i : Input) :
    Gate validate (Connection.step H validate c i).1
      (before ++ [(i, (Connection.step H validate c i).2)]) := by
  unfold Connection.step
  by_cases hclosed : c.closed = true
  · rw [if_pos hclosed]
    have hnot : ∀ {p : Prop}, c.closed = false → p := fun hopen =>
      absurd (hclosed.symm.trans hopen) (by decide)
    exact ⟨h.order, hnot, hnot, hnot, hnot⟩
  · rw [if_neg hclosed]
    exact h.processed (Bool.eq_false_iff.mpr hclosed) (ReaderState.processFrame_cases ..)

/-- A frame processed before authentication does not reach the handler and is
answered once. -/
theorem answered_of_unauthenticated {out : ReaderState σ × Handled}
    (hout : c.reader.Processed validate i out) (hauth : c.reader.authenticated = false) :
    out.2.calls = [] ∧ AnsweredOnce i out.2 := by
  have hsend : ∀ f : Frame, f.correlationId = i.frame.correlationId →
      (f.msgType = .ack ∨ f.msgType = .nack) →
      (sendInband i f).calls = [] ∧ AnsweredOnce i (sendInband i f) := by
    intro f hid htype
    unfold sendInband AnsweredOnce
    split
    · exact ⟨rfl, f, rfl, hid, htype⟩
    · exact ⟨rfl, rfl, rfl⟩
  cases hout with
  | hello => exact hsend _ rfl (.inl rfl)
  | auth => exact hsend _ rfl (.inl rfl)
  | reject failures =>
    have hsent := hsend (nackFrame i 401 "invalid API key") rfl (.inr rfl)
    unfold rejection
    dsimp only
    split
    · rename_i hlast
      have hwriter : i.writerOpen = true := (Bool.and_eq_true_iff.mp hlast).1
      unfold AnsweredOnce at hsent ⊢
      rw [if_pos hwriter] at hsent ⊢
      exact hsent
    · exact hsent
  | nack code message => exact hsend _ rfl (.inr rfl)
  | handler s' handled hauth' => exact absurd (hauth'.symm.trans hauth) (by decide)

end Step

/-- **The authentication gate**: whatever frames a connection has processed,
`authenticated` implies `hello_performed`; the next frame reaches the message
handler only after an accepted HELLO and an accepted AUTH behind it; a frame
before that gets exactly one ACK or NACK of its own; and after five AUTH
frames answered with 401 no frame is processed. -/
theorem authentication_gate {σ : Type} (H : MessageHandler σ) (validate : String → Bool)
    (id : Nat) (handler : σ) (inputs : List Input) (i : Input) :
    let c := (exec (step H validate) (.new id handler) inputs).1
    let before := trace (step H validate) (.new id handler) inputs
    let out := (step H validate c i).2
    (c.reader.authenticated = true → c.reader.helloPerformed = true) ∧
    (∀ h, out = some h → h.calls ≠ [] → Opened validate before) ∧
    (∀ h, out = some h → ¬ Opened validate before → h.calls = [] ∧ AnsweredOnce i h) ∧
    (maxAuthFailures ≤ before.countP AuthRejected → out = none) := by
  intro c before out
  have hgate : Gate validate c before :=
    trace_invariant (fun _ _ i h => h.step i) (Gate.new validate id handler) inputs
  have hopen : ∀ h, out = some h → c.closed = false ∧
      c.reader.Processed validate i ((c.reader.processFrame H validate i).1, h) := by
    intro h hout
    have hcases := ReaderState.processFrame_cases H validate c.reader i
    change (step H validate c i).2 = some h at hout
    unfold step at hout
    split at hout
    · cases hout
    · rename_i hclosed
      cases hout
      exact ⟨Bool.eq_false_iff.mpr hclosed, hcases⟩
  refine ⟨hgate.order, ?_, ?_, ?_⟩
  · intro h hout hcalls
    obtain ⟨hclosed, hprocessed⟩ := hopen h hout
    cases hauth : c.reader.authenticated with
    | true => exact hgate.auth hclosed hauth
    | false => exact absurd (answered_of_unauthenticated hprocessed hauth).1 hcalls
  · intro h hout hnot
    obtain ⟨hclosed, hprocessed⟩ := hopen h hout
    cases hauth : c.reader.authenticated with
    | true => exact absurd (hgate.auth hclosed hauth) hnot
    | false => exact answered_of_unauthenticated hprocessed hauth
  · intro hfive
    cases hout : out with
    | none => rfl
    | some h => exact absurd (hgate.limit (hopen h hout).1) (Nat.not_lt.mpr hfive)

/-- A handler that answers nothing. -/
def silentHandler : MessageHandler Unit where
  handlePublishFast := fun _ _ _ cache => (((), cache), .ok none)
  handleSubscribeSlot := fun _ _ _ => ((), .ok .none)
  handleFrame := fun _ _ _ => ((), .ok .none)

/-- HELLO, a wrong key, the right key, and a PING that reaches the handler. -/
theorem authentication_gate_ping :
    let inputs : List Input := [⟨⟨.hello, 1, [0, 2]⟩, true⟩, ⟨⟨.auth, 2, [0, 1, 0x61]⟩, true⟩,
      ⟨⟨.auth, 3, [0, 1, 0x6B]⟩, true⟩]
    let c := (exec (step silentHandler (· = "k")) (.new 7 ()) inputs).1
    (step silentHandler (· = "k") c ⟨⟨.ping, 4, []⟩, true⟩).2 =
        some ⟨[.handleFrame], [], .ok ()⟩ ∧
      Opened (· = "k") (trace (step silentHandler (· = "k")) (.new 7 ()) inputs) := by
  intro inputs c
  have hcalled : (step silentHandler (· = "k") c ⟨⟨.ping, 4, []⟩, true⟩).2 =
      some ⟨[.handleFrame], [], .ok ()⟩ := by decide +kernel
  exact ⟨hcalled, (authentication_gate silentHandler _ 7 () inputs _).2.1 _ hcalled nofun⟩

end Connection

end BlipMQ.Net
