import BlipMQ.Core.Replay

/-!
# Broker — reading a checkpoint back

The file lists the cursors in the order in which the map iterates and the
reader puts them into a new map, so what is read back is the same map up to
that order.
-/

namespace BlipMQ.Core

open Wal (WalError)

namespace CheckpointSnapshot

/-! ## The cursors -/

/-- One cursor is read back, and the rest of the bytes is left. -/
theorem decodeCursors_encodeCursor {e : (String × String) × Nat} {chunk : Bytes}
    (h : encodeCursor e = .ok chunk) (hv : e.2 < 2 ^ 64) (n : Nat) (rest : Bytes)
    (cursors : MaxMap (String × String)) :
    decodeCursors (n + 1) (chunk ++ rest) cursors =
      decodeCursors n rest (cursors.insert e.1 e.2) := by
  unfold encodeCursor at h
  dsimp only at h
  obtain ⟨hcid, h⟩ := guard_eq_ok.mp h
  obtain ⟨htopic, h⟩ := guard_eq_ok.mp h
  cases h
  have hc : (utf8 e.1.1).length < 256 ^ 2 := Nat.lt_of_not_le hcid
  have ht : (utf8 e.1.2).length < 256 ^ 2 := Nat.lt_of_not_le htopic
  have hi : e.2 < 256 ^ 8 := hv
  have hshort : ∀ n, ¬ 2 + n < 2 := fun n => by omega
  have hshort' : ∀ n, ¬ 8 + n < 8 := fun n => by omega
  rw [decodeCursors]
  simp [hshort, hshort', beNat_beBytes hc, beNat_beBytes ht, beNat_beBytes hi, Bind.bind,
    Except.bind, List.append_assoc]

theorem decodeCursors_encode {es : List ((String × String) × Nat)} {chunks : List Bytes}
    (h : es.mapM encodeCursor = .ok chunks) (hv : ∀ e ∈ es, e.2 < 2 ^ 64)
    (cursors : MaxMap (String × String)) :
    decodeCursors es.length chunks.flatten cursors =
      .ok (es.foldl (fun m e => m.insert e.1 e.2) cursors) := by
  induction es generalizing chunks cursors with
  | nil => rfl
  | cons e es ih =>
    rw [List.mapM_cons] at h
    obtain ⟨chunk, he, h⟩ := bind_eq_ok.mp h
    obtain ⟨rest, hes, h⟩ := bind_eq_ok.mp h
    cases h
    rw [List.flatten_cons, List.length_cons,
      decodeCursors_encodeCursor he (hv e List.mem_cons_self)]
    exact ih hes (fun e' he' => hv e' (List.mem_cons_of_mem e he')) _

/-! ## The file -/

/-- The same checkpoint but for the order of the entries in its map. -/
structure Same (snap snap' : CheckpointSnapshot) : Prop where
  snapshotId : snap'.snapshotId = snap.snapshotId
  cursors : ∀ key, snap'.cursors.lookup key = snap.cursors.lookup key

variable {snap : CheckpointSnapshot} {E : Externals}

/-- What `encode` puts together. -/
theorem encode_eq_ok {bytes : Bytes} (h : snap.encode E = .ok bytes) :
    ∃ chunks, snap.cursors.pairs.length < 2 ^ 32 ∧
      snap.cursors.pairs.mapM encodeCursor = .ok chunks ∧
      let body := checkpointMagic ++ beBytes 4 checkpointVersion ++ beBytes 8 snap.snapshotId ++
        beBytes 4 snap.cursors.pairs.length ++ chunks.flatten
      bytes = body ++ beBytes 4 (E.crc32 body).toNat := by
  unfold encode at h
  dsimp only at h
  obtain ⟨hn, h⟩ := guard_eq_ok.mp h
  obtain ⟨chunks, hm, h⟩ := bind_eq_ok.mp h
  cases h
  exact ⟨chunks, Nat.lt_of_not_le hn, hm, rfl⟩

/-- The fields in front of the cursors, at their offsets. -/
theorem fields_of_body (v i n rest : Bytes) (hv : v.length = 4) (hi : i.length = 8)
    (hn : n.length = 4) :
    let body := checkpointMagic ++ v ++ i ++ n ++ rest
    24 ≤ body.length ∧ body.take 8 = checkpointMagic ∧ (body.drop 8).take 4 = v ∧
      (body.drop 12).take 8 = i ∧ (body.drop 20).take 4 = n ∧ body.drop 24 = rest := by
  have hm : checkpointMagic.length = 8 := rfl
  intro body
  have h8 : body.drop 8 = v ++ (i ++ (n ++ rest)) := by
    simp only [body, List.append_assoc]
    exact List.drop_left' hm
  have h12 : body.drop 12 = i ++ (n ++ rest) := by
    rw [← List.drop_drop (i := 4) (j := 8), h8, List.drop_left' hv]
  have h20 : body.drop 20 = n ++ rest := by
    rw [← List.drop_drop (i := 8) (j := 12), h12, List.drop_left' hi]
  refine ⟨?_, ?_, ?_, ?_, ?_, ?_⟩
  · simp only [body, List.length_append, hm, hv, hi, hn]
    omega
  · simp only [body, List.append_assoc]
    exact List.take_left' hm
  · rw [h8, List.take_left' hv]
  · rw [h12, List.take_left' hi]
  · rw [h20, List.take_left' hn]
  · rw [← List.drop_drop (i := 4) (j := 20), h20, List.drop_left' hn]

/-- **A checkpoint that was written is read back as itself.** -/
theorem decode_encode {bytes : Bytes} (h : snap.encode E = .ok bytes)
    (hid : snap.snapshotId < 2 ^ 64) (hv : ∀ e ∈ snap.cursors.pairs, e.2 < 2 ^ 64) :
    ∃ snap', decode E bytes = .ok snap' ∧ Same snap snap' := by
  obtain ⟨chunks, hn, hchunks, rfl⟩ := encode_eq_ok h
  obtain ⟨hlen, hmagic, hversion, hsnapshot, hcount, hrest⟩ := fields_of_body
    (beBytes 4 checkpointVersion) (beBytes 8 snap.snapshotId)
    (beBytes 4 snap.cursors.pairs.length) chunks.flatten (beBytes_length ..) (beBytes_length ..)
    (beBytes_length ..)
  generalize checkpointMagic ++ beBytes 4 checkpointVersion ++ beBytes 8 snap.snapshotId ++
    beBytes 4 snap.cursors.pairs.length ++ chunks.flatten = body at *
  have hcrc' : beNat (beBytes 4 (E.crc32 body).toNat) = (E.crc32 body).toNat :=
    beNat_beBytes (E.crc32 body).toNat_lt
  have hone : beNat (beBytes 4 checkpointVersion) = checkpointVersion := beNat_beBytes (by decide)
  have hid' : beNat (beBytes 8 snap.snapshotId) = snap.snapshotId := beNat_beBytes hid
  have hn' : beNat (beBytes 4 snap.cursors.pairs.length) = snap.cursors.pairs.length :=
    beNat_beBytes hn
  have htake : (body ++ beBytes 4 (E.crc32 body).toNat).take
      ((body ++ beBytes 4 (E.crc32 body).toNat).length - 4) = body := by
    rw [List.length_append, beBytes_length, Nat.add_sub_cancel, List.take_left]
  have hdrop : (body ++ beBytes 4 (E.crc32 body).toNat).drop
      ((body ++ beBytes 4 (E.crc32 body).toNat).length - 4) =
        beBytes 4 (E.crc32 body).toNat := by
    rw [List.length_append, beBytes_length, Nat.add_sub_cancel, List.drop_left]
  have hlong : ¬ (body ++ beBytes 4 (E.crc32 body).toNat).length < 8 + 4 + 8 + 4 + 4 := by
    rw [List.length_append, beBytes_length]
    omega
  refine ⟨⟨snap.snapshotId, snap.cursors.pairs.foldl (fun m e => m.insert e.1 e.2) ∅⟩, ?_,
    rfl, fun key => MaxMap.lookup_fill snap.cursors key⟩
  unfold decode
  rw [if_neg hlong]
  simp only [htake, hdrop, hmagic, hversion, hsnapshot, hcount, hrest, hcrc', hone, hid', hn',
    decodeCursors_encode hchunks hv, ne_eq, not_true_eq_false, if_false]
  rfl

/-! ## What can be written -/

theorem encodeCursor_ok_iff {e : (String × String) × Nat} :
    (∃ chunk, encodeCursor e = .ok chunk) ↔
      (utf8 e.1.1).length < 2 ^ 16 ∧ (utf8 e.1.2).length < 2 ^ 16 :=
  names_ok_iff

theorem mapM_ok_iff {α β : Type} {f : α → Except WalError β} {l : List α} :
    (∃ bs, l.mapM f = .ok bs) ↔ ∀ a ∈ l, ∃ b, f a = .ok b := by
  induction l with
  | nil => exact iff_of_true ⟨[], rfl⟩ (List.forall_mem_nil _)
  | cons a l ih =>
    rw [List.forall_mem_cons, ← ih, List.mapM_cons]
    cases ha : f a with
    | error e =>
      refine iff_of_false ?_ ?_
      · rintro ⟨bs, h⟩
        cases h
      · rintro ⟨⟨b, h⟩, -⟩
        cases h
    | ok b =>
      cases hl : l.mapM f with
      | error e =>
        refine iff_of_false ?_ ?_
        · rintro ⟨bs, h⟩
          cases h
        · rintro ⟨-, bs, h⟩
          cases h
      | ok bs => exact iff_of_true ⟨b :: bs, rfl⟩ ⟨⟨b, rfl⟩, bs, rfl⟩

/-- The cursors can be counted in four bytes and their names measured in two. -/
structure Fits (snap : CheckpointSnapshot) : Prop where
  count : snap.cursors.entries.length < 2 ^ 32
  names : ∀ key v, snap.cursors.lookup key = some v →
    (utf8 key.1).length < 2 ^ 16 ∧ (utf8 key.2).length < 2 ^ 16

/-- **A checkpoint can be written exactly if it fits.** -/
theorem encode_ok_iff : (∃ bytes, snap.encode E = .ok bytes) ↔ snap.Fits := by
  have hlength : snap.cursors.pairs.length = snap.cursors.entries.length := List.length_map _
  have hnames : (∀ e ∈ snap.cursors.pairs, ∃ chunk, encodeCursor e = .ok chunk) ↔
      ∀ key v, snap.cursors.lookup key = some v →
        (utf8 key.1).length < 2 ^ 16 ∧ (utf8 key.2).length < 2 ^ 16 := by
    constructor
    · intro h key v hv
      exact encodeCursor_ok_iff.mp (h (key, v) (MaxMap.mem_pairs.mpr hv))
    · intro h e he
      exact encodeCursor_ok_iff.mpr (h e.1 e.2 (MaxMap.mem_pairs.mp he))
  constructor
  · rintro ⟨bytes, h⟩
    obtain ⟨chunks, hn, hchunks, -⟩ := encode_eq_ok h
    exact ⟨hlength ▸ hn, hnames.mp (mapM_ok_iff.mp ⟨chunks, hchunks⟩)⟩
  · rintro ⟨hcount, hfits⟩
    obtain ⟨chunks, hchunks⟩ := mapM_ok_iff.mpr (hnames.mpr hfits)
    have hn : ¬ 2 ^ 32 ≤ snap.cursors.pairs.length := by
      rw [hlength]
      exact Nat.not_le_of_lt hcount
    unfold encode
    dsimp only
    rw [if_neg hn, hchunks]
    exact ⟨_, rfl⟩

/-- Ids are `u64`. -/
structure Valid (snap : CheckpointSnapshot) : Prop where
  snapshotId : snap.snapshotId < 2 ^ 64
  ackedWalId : ∀ key v, snap.cursors.lookup key = some v → v < 2 ^ 64

section Same

variable {snap snap' snap'' : CheckpointSnapshot}

theorem Same.trans (h : snap.Same snap') (h' : snap'.Same snap'') : snap.Same snap'' where
  snapshotId := h'.snapshotId.trans h.snapshotId
  cursors key := (h'.cursors key).trans (h.cursors key)

theorem Same.fits (h : snap.Same snap') (hfits : snap.Fits) : snap'.Fits where
  count := by
    rw [length_eq_of_lookup_eq h.cursors]
    exact hfits.count
  names key v hv := hfits.names key v ((h.cursors key).symm.trans hv)

theorem Same.valid (h : snap.Same snap') (hvalid : snap.Valid) : snap'.Valid where
  snapshotId := by
    rw [h.snapshotId]
    exact hvalid.snapshotId
  ackedWalId key v hv := hvalid.ackedWalId key v ((h.cursors key).symm.trans hv)

end Same

end CheckpointSnapshot

/-- **What recovery reads back is what was written.** A checkpoint is written in
whatever order its map iterates (`snap'` is any map with the contents of
`snap`); an entry of the log is read back as itself, so never as one of the
other kind. -/
theorem recovery_formats_roundTrip (E : Externals) :
    (∀ snap snap' : CheckpointSnapshot, snap.Valid → snap.Fits → snap.Same snap' →
      ∃ bytes read, snap'.encode E = .ok bytes ∧ CheckpointSnapshot.decode E bytes = .ok read ∧
        snap.Same read) ∧
    (∀ e : WalEntry, e.Fits → (∀ a, e = .ack a → a.ackedWalId < 2 ^ 64) →
      ∃ bytes, e.encode = .ok bytes ∧ WalEntry.decode bytes = .ok e) := by
  refine ⟨?_, ?_⟩
  · intro snap snap' hvalid hfits hsame
    have hvalid' := hsame.valid hvalid
    obtain ⟨bytes, hbytes⟩ := (CheckpointSnapshot.encode_ok_iff (E := E)).mpr (hsame.fits hfits)
    obtain ⟨read, hread, hsame'⟩ := CheckpointSnapshot.decode_encode hbytes hvalid'.snapshotId
      fun e he => hvalid'.ackedWalId e.1 e.2 (MaxMap.mem_pairs.mp he)
    exact ⟨bytes, read, hbytes, hread, hsame.trans hsame'⟩
  · intro e hfits hid
    obtain ⟨bytes, hbytes⟩ := WalEntry.encode_ok_iff.mpr hfits
    exact ⟨bytes, hbytes, WalEntry.decode_encode hbytes hid⟩

/-- A checkpoint of two cursors, written in the other order. -/
theorem recovery_formats_roundTrip_two_cursors :
    let E : Externals := ⟨fun _ => 0, Crc32.crc32, fun buf _ _ _ _ => buf⟩
    let snap : CheckpointSnapshot := ⟨4, (AList.insert ("a", "t") 4 ∅).insert ("b", "t") 7⟩
    let snap' : CheckpointSnapshot := ⟨4, (AList.insert ("b", "t") 7 ∅).insert ("a", "t") 4⟩
    snap.cursors.entries ≠ snap'.cursors.entries ∧
      ∃ bytes read, snap'.encode E = .ok bytes ∧ CheckpointSnapshot.decode E bytes = .ok read ∧
        snap.Same read := by
  intro E snap snap'
  have hcursors : ∀ key v, snap.cursors.lookup key = some v →
      (key = ("b", "t") ∧ 7 = v) ∨ (key = ("a", "t") ∧ 4 = v) := by
    intro key v hv
    rcases lookup_insert_eq_some.mp hv with hb | ⟨-, hv⟩
    · exact .inl hb
    rcases lookup_insert_eq_some.mp hv with ha | ⟨-, hv⟩
    · exact .inr ha
    · cases hv
  refine ⟨by decide, (recovery_formats_roundTrip E).1 snap snap' ⟨by decide, ?_⟩ ⟨by decide, ?_⟩
    ⟨rfl, ?_⟩⟩
  · intro key v hv
    rcases hcursors key v hv with ⟨rfl, rfl⟩ | ⟨rfl, rfl⟩ <;> decide
  · intro key v hv
    rcases hcursors key v hv with ⟨rfl, rfl⟩ | ⟨rfl, rfl⟩ <;> decide +kernel
  · intro key
    show (AList.insert ("a", "t") 4 _).lookup key = (AList.insert ("b", "t") 7 _).lookup key
    rw [lookup_insert_eq, lookup_insert_eq, lookup_insert_eq, lookup_insert_eq]
    by_cases ha : key = ("a", "t")
    · subst ha
      decide
    · rw [if_neg ha, if_neg ha]

end BlipMQ.Core
