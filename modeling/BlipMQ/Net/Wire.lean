import BlipMQ.Net.Frame

/-!
# Net — the frames of a byte stream

`try_decode_frame` never changes its mind when more bytes arrive, so the
frames a connection sees are those of the stream, not of the reads. And a
stream that was written frame by frame is read back as those frames.
-/

namespace BlipMQ.Net

/-! ## Decoding under more bytes -/

section TryDecode

variable {src rest : Bytes} {frame : Frame}

theorem tryDecodeFrame_shrinks (h : tryDecodeFrame src = .ok (some (frame, rest))) :
    rest.length < src.length := by
  unfold tryDecodeFrame at h
  dsimp only at h
  repeat' split at h
  all_goals cases h
  rename_i h4 h0 hmax h9 hlen _ _ _
  simp only [List.length_drop, lengthFieldLen] at *
  omega

/-- **A verdict stands**: only where bytes are missing can more of them matter. -/
theorem tryDecodeFrame_append (src more : Bytes) (h : tryDecodeFrame src ≠ .ok none) :
    tryDecodeFrame (src ++ more) =
      (tryDecodeFrame src).map (Option.map fun p => (p.1, p.2 ++ more)) := by
  unfold tryDecodeFrame at h ⊢
  dsimp only at h ⊢
  by_cases h4 : src.length < lengthFieldLen
  · rw [if_pos h4] at h
    exact absurd rfl h
  have h4' : ¬ (src ++ more).length < lengthFieldLen := by
    rw [List.length_append]
    omega
  rw [if_neg h4, if_neg h4', List.take_append_of_le_length (Nat.le_of_not_lt h4)]
  rw [if_neg h4] at h
  generalize beNat (src.take lengthFieldLen) = len at h ⊢
  -- the checks of the length read the same four bytes
  by_cases h0 : len = 0
  · rw [if_pos h0, if_pos h0]
    rfl
  rw [if_neg h0, if_neg h0]
  by_cases hmax : maxFrameSize < len
  · rw [if_pos hmax, if_pos hmax]
    rfl
  rw [if_neg hmax, if_neg hmax]
  by_cases h9 : len < 1 + 8
  · rw [if_pos h9, if_pos h9]
    rfl
  rw [if_neg h9, if_neg h9]
  rw [if_neg h0, if_neg hmax, if_neg h9] at h
  by_cases hlen : src.length < lengthFieldLen + len
  · rw [if_pos hlen] at h
    exact absurd rfl h
  have hlen' : ¬ (src ++ more).length < lengthFieldLen + len := by
    rw [List.length_append]
    omega
  rw [if_neg hlen, if_neg hlen', List.take_append_of_le_length (Nat.le_of_not_lt hlen),
    List.drop_append_of_le_length (Nat.le_of_not_lt hlen)]
  split <;> rfl

end TryDecode

/-- `try_decode_frame` as a decoder of streams. -/
def frameDecoder : StreamDecoder Frame FrameDecodeError where
  decode := tryDecodeFrame
  shrinks := tryDecodeFrame_shrinks
  item_append := by
    intro buf rest frame more h
    rw [tryDecodeFrame_append buf more (by rw [h]; nofun), h]
    rfl
  error_append := by
    intro buf e more h
    rw [tryDecodeFrame_append buf more (by rw [h]; nofun), h]
    rfl

/-! ## Decoding what was encoded -/

/-- The bytes of an encodable frame. -/
def frameBytes (frame : Frame) : Bytes :=
  beBytes lengthFieldLen (1 + 8 + frame.payload.length) ++
    (frame.msgType.toU8 :: (beBytes 8 frame.correlationId ++ frame.payload))

theorem encodeFrame_eq_ok {frame : Frame} {dst dst' : Bytes} :
    encodeFrame frame dst = .ok dst' ↔
      1 + 8 + frame.payload.length ≤ maxFrameSize ∧ dst' = dst ++ frameBytes frame := by
  unfold encodeFrame
  dsimp only
  split
  · simp
    omega
  · rename_i hlen
    simp only [Except.ok.injEq, Nat.le_of_not_lt hlen, true_and]
    exact eq_comm

theorem tryDecodeFrame_frameBytes {frame : Frame} (hid : frame.correlationId < 2 ^ 64)
    (hlen : 1 + 8 + frame.payload.length ≤ maxFrameSize) :
    tryDecodeFrame (frameBytes frame) = .ok (some (frame, [])) := by
  have hmax : maxFrameSize < 256 ^ lengthFieldLen := by decide
  have hnat : beNat (beBytes lengthFieldLen (1 + 8 + frame.payload.length)) =
      1 + 8 + frame.payload.length := beNat_beBytes (by omega)
  have hnat8 : beNat (beBytes 8 frame.correlationId) = frame.correlationId := beNat_beBytes hid
  have htake : (frameBytes frame).take lengthFieldLen =
      beBytes lengthFieldLen (1 + 8 + frame.payload.length) :=
    List.take_left' (beBytes_length ..)
  have hsize : (frameBytes frame).length = lengthFieldLen + (1 + 8 + frame.payload.length) := by
    simp only [frameBytes, List.length_append, List.length_cons, beBytes_length]
    omega
  have hdrop : (frameBytes frame).drop lengthFieldLen =
      frame.msgType.toU8 :: (beBytes 8 frame.correlationId ++ frame.payload) :=
    List.drop_left' (beBytes_length ..)
  have h4 : ¬ (frameBytes frame).length < lengthFieldLen := by omega
  have h0 : ¬ 1 + 8 + frame.payload.length = 0 := by omega
  have h9 : ¬ 1 + 8 + frame.payload.length < 1 + 8 := by omega
  unfold tryDecodeFrame
  dsimp only
  rw [htake, hnat, hsize, if_neg (by omega), if_neg h0, if_neg (Nat.not_lt.mpr hlen), if_neg h9,
    if_neg (Nat.lt_irrefl _), ← hsize, List.take_length, List.drop_length, hdrop]
  have h8 : (beBytes 8 frame.correlationId ++ frame.payload).take 8 =
      beBytes 8 frame.correlationId := List.take_left' (beBytes_length ..)
  have h8' : (beBytes 8 frame.correlationId ++ frame.payload).drop 8 = frame.payload :=
    List.drop_left' (beBytes_length ..)
  simp only [List.headD_cons, FrameType.tryFrom_toU8, List.drop_succ_cons, List.drop_zero, h8, h8',
    hnat8]

/-- The encodings of frames, one after the other in one buffer. -/
def encodeFrames (frames : List Frame) : Except FrameEncodeError Bytes :=
  frames.foldlM (fun dst frame => encodeFrame frame dst) []

theorem encodeFrames_eq_ok {frames : List Frame} {bytes : Bytes}
    (h : encodeFrames frames = .ok bytes) :
    (∀ frame ∈ frames, 1 + 8 + frame.payload.length ≤ maxFrameSize) ∧
      bytes = frames.flatMap frameBytes := by
  have hgen : ∀ {frames : List Frame} {dst bytes : Bytes},
      frames.foldlM (fun dst frame => encodeFrame frame dst) dst = .ok bytes →
      (∀ frame ∈ frames, 1 + 8 + frame.payload.length ≤ maxFrameSize) ∧
        bytes = dst ++ frames.flatMap frameBytes := by
    intro frames
    induction frames with
    | nil =>
      intro dst bytes h
      cases h
      simp
    | cons frame frames ih =>
      intro dst bytes h
      rw [List.foldlM_cons] at h
      obtain ⟨dst', henc, hrest⟩ := bind_eq_ok.mp h
      obtain ⟨hlen, rfl⟩ := encodeFrame_eq_ok.mp henc
      obtain ⟨hall, rfl⟩ := ih hrest
      refine ⟨List.forall_mem_cons.mpr ⟨hlen, hall⟩, ?_⟩
      rw [List.flatMap_cons, List.append_assoc]
  exact hgen h

/-! ## The reader -/

/-- The frames of a stream, and the error or the bytes that are left. -/
def decodeFrames (stream : Bytes) : List Frame × Except FrameDecodeError Bytes :=
  frameDecoder.drain stream

theorem decodeFrames_flatMap {frames : List Frame}
    (hids : ∀ frame ∈ frames, frame.correlationId < 2 ^ 64)
    (hlen : ∀ frame ∈ frames, 1 + 8 + frame.payload.length ≤ maxFrameSize) :
    decodeFrames (frames.flatMap frameBytes) = (frames, .ok []) := by
  refine frameDecoder.drain_flatMap rfl frames fun frame hmem more => ?_
  have hbase : frameDecoder.decode (frameBytes frame) = .ok (some (frame, [])) :=
    tryDecodeFrame_frameBytes (hids frame hmem) (hlen frame hmem)
  exact frameDecoder.item_append more hbase

/-- `ReaderState::run` as far as frames come out of it: `read_buf` grows by each
read and is decoded until bytes are missing or an error ends the connection.
A read of no bytes ends it too. -/
def readFrames (reads : List Bytes) : List Frame × Except FrameDecodeError Bytes :=
  frameDecoder.readLoop [] reads

/-- **Frames do not depend on the reads, and decoding inverts encoding.** The
correlation id of a frame is a `u64`. -/
theorem readFrames_eq_decodeFrames :
    (∀ reads, readFrames reads = decodeFrames (StreamDecoder.streamOf reads)) ∧
      ∀ frames bytes, (∀ frame ∈ frames, frame.correlationId < 2 ^ 64) →
        encodeFrames frames = .ok bytes → decodeFrames bytes = (frames, .ok []) := by
  refine ⟨fun reads => frameDecoder.readLoop_eq_drain reads rfl, ?_⟩
  intro frames bytes hids henc
  obtain ⟨hlen, rfl⟩ := encodeFrames_eq_ok henc
  exact decodeFrames_flatMap hids hlen

/-- Two frames, cut inside the length of the second. -/
theorem readFrames_eq_decodeFrames_ping_pong :
    readFrames [[0, 0, 0, 9, 7, 0, 0, 0, 0, 0, 0, 0, 1, 0, 0], [0, 10, 8],
        [0, 0, 0, 0, 0, 0, 0, 2, 5]] =
      ([⟨.ping, 1, []⟩, ⟨.pong, 2, [5]⟩], .ok []) := by
  have hdecode := readFrames_eq_decodeFrames.2 [⟨.ping, 1, []⟩, ⟨.pong, 2, [5]⟩]
    ([0, 0, 0, 9, 7, 0, 0, 0, 0, 0, 0, 0, 1, 0, 0] ++ ([0, 10, 8] ++ [0, 0, 0, 0, 0, 0, 0, 2, 5]))
    (by decide) (by rfl)
  exact (readFrames_eq_decodeFrames.1 _).trans hdecode

end BlipMQ.Net
