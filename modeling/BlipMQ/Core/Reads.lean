import BlipMQ.Core.CheckpointFile
import BlipMQ.Lib.Buf

/-!
# Broker — the reads of the recovery decoders

`WalEntry::decode` and `CheckpointSnapshot::decode` once more, read by read.
No read panics, and what the reads come to is what the decoders of the entry
and replay modules say. The checkpoint decoder also allocates a table of the
size the file announces, before it looks whether the file is that long.
-/

namespace BlipMQ.Core

open Reader
open Wal (WalError)

/-! ## Entries of the log -/

/-- `bytes` is what stands behind the kind byte, with the cursor at its front. -/
def WalMessageRecord.reads (bytes : Bytes) : Reader WalError WalMessageRecord := do
  failIf (bytes.length < 3) (.corruption "WAL message record too short")
  let qosByte ← getU8
  let qos ← propagate (QoSLevel.ofByte qosByte)
  let topicLen ← getUInt 2
  failIf ((← remaining) < topicLen) (.corruption "WAL record truncated while reading topic")
  let topicBytes ← copyToBytes topicLen
  let topic ← propagate (textOr "topic name in WAL record is not valid UTF-8" topicBytes)
  let payload ← copyToBytes (← remaining)
  return ⟨topic, qos, payload⟩

def WalAckRecord.reads (bytes : Bytes) : Reader WalError WalAckRecord := do
  failIf (bytes.length < 2) (.corruption "ack record too short")
  let cidLen ← getUInt 2
  failIf ((← remaining) < cidLen + 2) (.corruption "ack: cid len overflow")
  let cidBytes ← copyToBytes cidLen
  let clientId ← propagate (textOr "ack: invalid client_id utf8" cidBytes)
  let topicLen ← getUInt 2
  failIf ((← remaining) < topicLen + 8) (.corruption "ack: topic len overflow")
  let topicBytes ← copyToBytes topicLen
  let topic ← propagate (textOr "ack: invalid topic utf8" topicBytes)
  let ackedWalId ← getUInt 8
  return ⟨clientId, topic, ackedWalId⟩

def WalEntry.decodeReads (bytes : Bytes) : Option (Except WalError WalEntry) :=
  Reader.result (do
    failIf (bytes.length = 0) (.corruption "empty WAL entry")
    let kind ← index bytes 0
    if kind = walKindMessage then do
      let rest ← slice bytes 1 bytes.length
      let m ← within rest (WalMessageRecord.reads rest)
      return WalEntry.message m
    else if kind = walKindAck then do
      let rest ← slice bytes 1 bytes.length
      let a ← within rest (WalAckRecord.reads rest)
      return WalEntry.ack a
    else propagate (.error (.corruption s!"unknown WAL entry kind {kind.toNat}"))) bytes

theorem WalMessageRecord.reads_result (bytes : Bytes) :
    (reads bytes).result bytes = some (decodeAfterKind bytes) := by
  match bytes with
  | [] | [_] | [_, _] => rfl
  | qosByte :: b₁ :: b₂ :: slice =>
    have hlen : 3 ≤ (qosByte :: b₁ :: b₂ :: slice).length := by
      simp only [List.length_cons]
      omega
    unfold reads decodeAfterKind
    rw [result_check fun _ => rfl, if_neg (Nat.not_lt_of_le hlen), result_getU8 (by omega)]
    refine result_propagate fun qos => ?_
    have htwo : 2 ≤ ((qosByte :: b₁ :: b₂ :: slice).drop 1).length := Nat.le_of_succ_le_succ hlen
    rw [result_getUInt htwo, result_remaining]
    refine result_failIf rfl fun hmissing => ?_
    rw [result_copyToBytes (Nat.le_of_not_lt hmissing)]
    refine result_propagate fun topic => ?_
    rw [result_remaining, result_copyToBytes (Nat.le_refl _), List.take_length]
    rfl

/-- A text behind its length, with a look ahead at the `k` bytes behind the text:
the reads go on as the decoder does. -/
theorem result_text {β : Type} {e : WalError} {k : Nat} {reason : String}
    {f : String → Reader WalError β} {g : String → Except WalError β} {slice : Bytes}
    (h : 2 ≤ slice.length)
    (hf : ∀ s, k ≤ ((slice.drop 2).drop (beNat (slice.take 2))).length →
      (f s).result ((slice.drop 2).drop (beNat (slice.take 2))) = some (g s)) :
    Reader.result (do
      let len ← getUInt 2
      failIf ((← remaining) < len + k) e
      let bytes ← copyToBytes len
      let s ← propagate (textOr reason bytes)
      f s) slice =
    some (if (slice.drop 2).length < beNat (slice.take 2) + k then .error e
      else textOr reason ((slice.drop 2).take (beNat (slice.take 2))) >>= g) := by
  rw [result_getUInt h, result_remaining]
  refine result_failIf rfl fun hshort => ?_
  rw [result_copyToBytes (by omega)]
  refine result_propagate fun s => hf s ?_
  rw [List.length_drop]
  omega

theorem WalAckRecord.reads_result (bytes : Bytes) :
    (reads bytes).result bytes = some (decodeAfterKind bytes) := by
  refine result_failIf rfl fun hshort => ?_
  refine result_text (Nat.le_of_not_lt hshort) fun clientId htwo => ?_
  refine result_text htwo fun topic height => ?_
  rw [result_getUInt height]
  rfl

theorem WalEntry.decodeReads_eq (bytes : Bytes) :
    decodeReads bytes = some (decode bytes) := by
  cases bytes with
  | nil => rfl
  | cons kind rest =>
    have hslice : ((kind :: rest).take (kind :: rest).length).drop 1 = rest := by
      rw [List.take_length]
      rfl
    have hslice' : 1 ≤ (kind :: rest).length := Nat.succ_le_succ (Nat.zero_le _)
    have hsome : ¬ (kind :: rest).length = 0 := Nat.succ_ne_zero _
    have hkind : ((kind :: rest).drop 0).headD 0 = kind := rfl
    unfold decodeReads
    rw [result_check fun _ => rfl, if_neg hsome, result_index (Nat.succ_pos _), hkind, decode]
    by_cases hmessage : kind = walKindMessage
    · rw [if_pos hmessage, if_pos hmessage, result_slice hslice' (Nat.le_refl _), hslice,
        result_bind_pure, within_result, WalMessageRecord.reads_result]
      rfl
    rw [if_neg hmessage, if_neg hmessage]
    by_cases hack : kind = walKindAck
    · rw [if_pos hack, if_pos hack, result_slice hslice' (Nat.le_refl _), hslice,
        result_bind_pure, within_result, WalAckRecord.reads_result]
      rfl
    rw [if_neg hack, if_neg hack]
    rfl

/-- The names of an entry are the bytes their lengths announce; what stands behind
the topic of a message is the payload. -/
def WalEntry.Placed (bytes : Bytes) : WalEntry → Prop
  | .message m =>
    Announced bytes 2 (utf8 m.topic) ∧ bytes.drop (4 + (utf8 m.topic).length) = m.payload
  | .ack a =>
    Announced bytes 1 (utf8 a.clientId) ∧
      Announced bytes (3 + (utf8 a.clientId).length) (utf8 a.topic)

theorem WalEntry.placed_of_decode {bytes : Bytes} {entry : WalEntry}
    (h : decode bytes = .ok entry) : Placed bytes entry := by
  cases bytes with
  | nil => cases h
  | cons kind rest =>
    unfold decode at h
    dsimp only at h
    by_cases hmessage : kind = walKindMessage
    · rw [if_pos hmessage] at h
      obtain ⟨m, hm, rfl⟩ := map_eq_ok.mp h
      obtain ⟨hlt, q, rfl⟩ := WalMessageRecord.layout hm
      have hat : (kind :: q :: (sized (utf8 m.topic) ++ m.payload)).drop 2 = _ := rfl
      exact announced_sized hlt hat
    rw [if_neg hmessage] at h
    by_cases hack : kind = walKindAck
    · rw [if_pos hack] at h
      obtain ⟨a, ha, rfl⟩ := map_eq_ok.mp h
      obtain ⟨hclt, htlt, rest, rfl⟩ := WalAckRecord.layout ha
      have hat : (kind :: (sized (utf8 a.clientId) ++ (sized (utf8 a.topic) ++ rest))).drop 1 = _ :=
        rfl
      obtain ⟨hclient, hbehind⟩ := announced_sized hclt hat
      exact ⟨hclient, (announced_sized htlt hbehind).1⟩
    rw [if_neg hack] at h
    cases h

/-! ## Checkpoints -/

namespace CheckpointSnapshot

/-- The loop over `n` cursors. -/
def cursorReads : Nat → MaxMap (String × String) → Reader WalError (MaxMap (String × String))
  | 0, cursors => return cursors
  | n + 1, cursors => do
    failIf ((← remaining) < 2) (.corruption "checkpoint truncated")
    let cidLen ← getUInt 2
    failIf ((← remaining) < cidLen + 2) (.corruption "checkpoint truncated")
    let cidBytes ← copyToBytes cidLen
    let cid ← propagate (textOr "cid not utf8" cidBytes)
    let topicLen ← getUInt 2
    failIf ((← remaining) < topicLen + 8) (.corruption "checkpoint truncated")
    let topicBytes ← copyToBytes topicLen
    let topic ← propagate (textOr "topic not utf8" topicBytes)
    let walId ← getUInt 8
    cursorReads n (cursors.insert (cid, topic) walId)

/-- The buckets of a `HashMap::with_capacity(n)`: seven of eight are used. -/
def buckets (n : Nat) : Nat :=
  if n < 4 then 4 else if n < 8 then 8 else 2 ^ (Nat.log2 (n * 8 / 7 - 1) + 1)

/-- The bytes of its table: 56 for two strings and an id, a control byte for each
bucket and a group of them at the end. -/
def tableBytes (n : Nat) : Nat := if n = 0 then 0 else 57 * buckets n + 16

/-- What stands in front of the checksum. -/
def bodyReads (limit : Nat) : Reader WalError CheckpointSnapshot := do
  let magic ← copyToBytes 8
  failIf (magic ≠ checkpointMagic) (.corruption "checkpoint magic mismatch")
  let version ← getUInt 4
  failIf (version ≠ checkpointVersion)
    (.corruption s!"unsupported checkpoint version: {version}")
  let snapshotId ← getUInt 8
  let n ← getUInt 4
  allocate limit (tableBytes n)
  let cursors ← cursorReads n ∅
  return ⟨snapshotId, cursors⟩

/-- The decoder in a process that can have `limit` bytes for the table. -/
def decodeReads (E : Externals) (limit : Nat) (bytes : Bytes) :
    Option (Except WalError CheckpointSnapshot) :=
  Reader.result (do
    failIf (bytes.length < 8 + 4 + 8 + 4 + 4) (.corruption "checkpoint file too short")
    let crcOffset := bytes.length - 4
    let body ← slice bytes 0 crcOffset
    let crcSlice ← slice bytes crcOffset bytes.length
    let storedCrc ← within crcSlice (getUInt 4)
    failIf ((E.crc32 body).toNat ≠ storedCrc) (.corruption "checkpoint CRC mismatch")
    within body (bodyReads limit)) bytes

/-- The count the allocation is made for, in a file the decoder reads that far. -/
def announced (E : Externals) (bytes : Bytes) : Option Nat :=
  let body := bytes.take (bytes.length - 4)
  if bytes.length < 8 + 4 + 8 + 4 + 4 ∨
      (E.crc32 body).toNat ≠ beNat (bytes.drop (bytes.length - 4)) ∨
      body.take 8 ≠ checkpointMagic ∨ beNat ((body.drop 8).take 4) ≠ checkpointVersion then none
  else some (beNat ((body.drop 20).take 4))

/-- A table with room for as many cursors as fit into `len` bytes takes up to eleven
times as many. -/
theorem tableBytes_le {n len : Nat} (h : 12 * n ≤ len) : tableBytes n ≤ 11 * len + 472 := by
  unfold tableBytes buckets
  split
  · exact Nat.zero_le _
  split
  · omega
  split
  · omega
  · have hlog := Nat.log2_self_le (n := n * 8 / 7 - 1) (by omega)
    rw [Nat.pow_succ]
    omega

theorem cursorReads_result (n : Nat) (slice : Bytes) (cursors : MaxMap (String × String)) :
    (cursorReads n cursors).result slice = some (decodeCursors n slice cursors) := by
  induction n generalizing slice cursors with
  | zero => rfl
  | succ n ih =>
    unfold cursorReads decodeCursors
    rw [result_remaining]
    refine result_failIf rfl fun hshort => ?_
    refine result_text (Nat.le_of_not_lt hshort) fun cid htwo => ?_
    refine result_text htwo fun topic height => ?_
    rw [result_getUInt height]
    exact ih ..

theorem bodyReads_result {body : Bytes} (h : 24 ≤ body.length) (limit : Nat) :
    (bodyReads limit).result body =
      if body.take 8 ≠ checkpointMagic then
        some (.error (.corruption "checkpoint magic mismatch"))
      else if beNat ((body.drop 8).take 4) ≠ checkpointVersion then some (.error (.corruption
        s!"unsupported checkpoint version: {beNat ((body.drop 8).take 4)}"))
      else if tableBytes (beNat ((body.drop 20).take 4)) ≤ limit then
        some ((decodeCursors (beNat ((body.drop 20).take 4)) (body.drop 24) ∅).map
          fun cursors => ⟨beNat ((body.drop 12).take 8), cursors⟩)
      else none := by
  have hlen : ∀ n k, n + k ≤ 24 → k ≤ (body.drop n).length := by
    intro n k hle
    rw [List.length_drop]
    omega
  unfold bodyReads
  rw [result_copyToBytes (Nat.le_trans (by decide) h)]
  refine result_check fun _ => ?_
  rw [result_getUInt (hlen 8 4 (by decide))]
  refine result_check fun _ => ?_
  rw [List.drop_drop, result_getUInt (hlen 12 8 (by decide)), List.drop_drop,
    result_getUInt (hlen 20 4 (by decide)), List.drop_drop]
  by_cases htable : tableBytes (beNat ((body.drop 20).take 4)) ≤ limit
  · rw [result_allocate htable, if_pos htable, result_bind_pure, cursorReads_result]
    rfl
  · rw [result_allocate_not htable, if_neg htable]

/-- Only the allocation can end the reads. -/
theorem decodeReads_eq (E : Externals) (limit : Nat) (bytes : Bytes) :
    decodeReads E limit bytes =
      if ∀ n ∈ announced E bytes, tableBytes n ≤ limit then some (decode E bytes) else none := by
  unfold decodeReads decode announced
  dsimp only
  by_cases hshort : bytes.length < 8 + 4 + 8 + 4 + 4
  · rw [result_check fun _ => rfl, if_pos hshort, if_pos (by simp [hshort])]
    rw [if_pos hshort]
    rfl
  have hcrc : (bytes.drop (bytes.length - 4)).length = 4 := by
    rw [List.length_drop]
    omega
  have hbody : 24 ≤ (bytes.take (bytes.length - 4)).length := by
    rw [List.length_take]
    omega
  have hstored : (getUInt 4 : Reader WalError Nat).result (bytes.drop (bytes.length - 4)) =
      some (.ok (beNat (bytes.drop (bytes.length - 4)))) := by
    rw [getUInt_result (Nat.le_of_eq hcrc.symm), List.take_of_length_le (Nat.le_of_eq hcrc)]
  rw [result_check fun _ => rfl, if_neg hshort, if_neg hshort,
    result_slice (Nat.zero_le _) (Nat.sub_le _ _), List.drop_zero,
    result_slice (Nat.sub_le _ _) (Nat.le_refl _), List.take_length,
    result_bind_ok (run_within hstored)]
  generalize bytes.take (bytes.length - 4) = body at hbody ⊢
  rw [result_check fun _ => (within_result ..).trans (bodyReads_result hbody limit)]
  by_cases hmismatch : (E.crc32 body).toNat ≠ beNat (bytes.drop (bytes.length - 4))
  · rw [if_pos hmismatch, if_pos (by simp [hmismatch]), if_pos hmismatch]
    rfl
  rw [if_neg hmismatch, if_neg hmismatch]
  by_cases hmagic : body.take 8 ≠ checkpointMagic
  · rw [if_pos hmagic, if_pos (by simp [hmagic]), if_pos hmagic]
    rfl
  rw [if_neg hmagic, if_neg hmagic]
  by_cases hversion : beNat ((body.drop 8).take 4) ≠ checkpointVersion
  · rw [if_pos hversion, if_pos (by simp [hversion]), if_pos hversion]
    rfl
  rw [if_neg hversion, if_neg hversion]
  refine if_congr ?_ ?_ rfl
  · rw [if_neg (not_or.mpr ⟨hshort, not_or.mpr ⟨hmismatch, not_or.mpr ⟨hmagic, hversion⟩⟩⟩)]
    simp
  · cases decodeCursors (beNat ((body.drop 20).take 4)) (body.drop 24) ∅ <;> rfl

/-- From `pos` on the cursors stand one behind the other: two names, each behind its
length, and an id. -/
def CursorsAt (bs : Bytes) : Nat → List ((String × String) × Nat) → Prop
  | _, [] => True
  | pos, e :: es =>
    let topicPos := pos + 2 + (utf8 e.1.1).length
    let idPos := topicPos + 2 + (utf8 e.1.2).length
    Announced bs pos (utf8 e.1.1) ∧ Announced bs topicPos (utf8 e.1.2) ∧
      beNat ((bs.drop idPos).take 8) = e.2 ∧ CursorsAt bs (idPos + 8) es

theorem cursorsAt_of_decodeCursors {bs slice after : Bytes} {n pos : Nat}
    {cursors read : MaxMap (String × String)} (hbs : bs.drop pos = slice ++ after)
    (h : decodeCursors n slice cursors = .ok read) :
    ∃ es, es.length = n ∧ CursorsAt bs pos es ∧
      read = es.foldl (fun m e => m.insert e.1 e.2) cursors := by
  induction n generalizing slice pos cursors with
  | zero =>
    cases h
    exact ⟨[], rfl, trivial, rfl⟩
  | succ n ih =>
    unfold decodeCursors at h
    dsimp only at h
    obtain ⟨hshort, h⟩ := guard_eq_ok.mp h
    obtain ⟨hcid, h⟩ := guard_eq_ok.mp h
    obtain ⟨cid, hcidText, h⟩ := bind_eq_ok.mp h
    obtain ⟨hclt, hslice⟩ := split_sized (Nat.le_of_not_lt hshort) (by omega)
    rw [textOr_eq_ok.mp hcidText] at hclt hslice
    generalize hslice' : (slice.drop 2).drop (beNat (slice.take 2)) = slice' at h hslice
    obtain ⟨htopic, h⟩ := guard_eq_ok.mp h
    obtain ⟨topic, htopicText, hmore⟩ := bind_eq_ok.mp h
    have htwo : 2 ≤ slice'.length := by
      rw [← hslice', List.length_drop]
      omega
    obtain ⟨htlt, hslice''⟩ := split_sized htwo (by omega)
    rw [textOr_eq_ok.mp htopicText] at htlt hslice''
    have height : 8 ≤ ((slice'.drop 2).drop (beNat (slice'.take 2))).length := by
      rw [List.length_drop]
      omega
    generalize (slice'.drop 2).drop (beNat (slice'.take 2)) = rest at hmore hslice'' height
    rw [hslice, hslice'', List.append_assoc, List.append_assoc] at hbs
    -- what stands from each of the fields on
    obtain ⟨hcidAt, hbsTopic⟩ := announced_sized hclt hbs
    obtain ⟨htopicAt, hbsId⟩ := announced_sized htlt hbsTopic
    have hbsNext := congrArg (List.drop 8) hbsId
    rw [List.drop_drop, List.drop_append_of_le_length height] at hbsNext
    obtain ⟨es, hlength, hes, hread⟩ := ih hbsNext hmore
    refine ⟨((cid, topic), beNat (rest.take 8)) :: es, by rw [List.length_cons, hlength], ?_, hread⟩
    exact ⟨hcidAt, htopicAt, by rw [hbsId, List.take_append_of_le_length height], hes⟩

/-- The names and ids of the cursors are where the file says. -/
def Placed (bytes : Bytes) (snap : CheckpointSnapshot) : Prop :=
  ∃ es, es.length = beNat ((bytes.drop 20).take 4) ∧ CursorsAt bytes 24 es ∧
    snap.cursors = es.foldl (fun m e => m.insert e.1 e.2) ∅

theorem placed_of_decode {E : Externals} {bytes : Bytes} {snap : CheckpointSnapshot}
    (h : decode E bytes = .ok snap) : Placed bytes snap := by
  unfold decode at h
  dsimp only at h
  obtain ⟨hshort, h⟩ := guard_eq_ok.mp h
  generalize hbody : bytes.take (bytes.length - 4) = body at h
  obtain ⟨hcrc, h⟩ := guard_eq_ok.mp h
  obtain ⟨hmagic, h⟩ := guard_eq_ok.mp h
  obtain ⟨hversion, h⟩ := guard_eq_ok.mp h
  obtain ⟨cursors, hcursors, h⟩ := bind_eq_ok.mp h
  cases h
  have hlong : 24 ≤ body.length := by
    rw [← hbody, List.length_take]
    omega
  have hsplit : bytes.drop 24 = body.drop 24 ++ bytes.drop (bytes.length - 4) := by
    rw [← List.drop_append_of_le_length hlong, ← hbody, List.take_append_drop]
  have hcount : (bytes.drop 20).take 4 = (body.drop 20).take 4 := by
    rw [← hbody, List.drop_take, List.take_take, Nat.min_eq_left (by omega)]
  unfold Placed
  rw [hcount]
  exact cursorsAt_of_decodeCursors hsplit hcursors

end CheckpointSnapshot

end BlipMQ.Core
