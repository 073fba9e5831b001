import BlipMQ.Wal.Writer

/-!
# WAL — the layout of a log directory

The abstract view of what the writer leaves on disk. Each segment file is
a `base` that was there when the log was opened (for a segment created
since, its header), the records this process wrote, and a `tail` of older
bytes the cursor has not reached. The writer's steps act on the active
segment, the last one, or close it and start the next.
-/

namespace BlipMQ.Wal

structure Seg where
  seq : Nat
  base : Bytes
  records : List WalRecord
  tail : Bytes
  synced : Nat

namespace Seg

/-- Offset behind the last record, where the cursor stands. -/
def stop (seg : Seg) : Nat := seg.base.length + sizeAll seg.records

def entries (seg : Seg) : List (Nat × RecordLocation) :=
  locationsFrom seg.seq seg.base.length seg.records

/-- Every record written to the segment is durable. -/
def Synced (seg : Seg) : Prop := seg.records ≠ [] → seg.stop ≤ seg.synced

/-- The record is in the segment, inside its durable part. -/
def Durable (seg : Seg) (r : WalRecord) : Prop :=
  ∃ o, (r, o) ∈ located seg.base.length seg.records ∧ o + r.size ≤ seg.synced

def appendBatch (seg : Seg) (rs : List WalRecord) : Seg :=
  { seg with
    records := seg.records ++ rs
    tail := seg.tail.drop (sizeAll rs)
    synced := min seg.synced seg.stop }

/-- A write that stopped after `data`. -/
def tear (seg : Seg) (data : Bytes) : Seg :=
  { seg with
    tail := data ++ seg.tail.drop data.length
    synced := min seg.synced seg.stop }

variable {r : WalRecord} {seg : Seg}

theorem located_stop {o : Nat} (h : (r, o) ∈ located seg.base.length seg.records) :
    o + r.size ≤ seg.stop := by
  obtain ⟨front, back, hrec, rfl⟩ := mem_located.mp h
  simp only [stop, hrec, sizeAll_append, sizeAll_cons]
  omega

theorem Synced.durable (h : seg.Synced) (hr : r ∈ seg.records) : seg.Durable r := by
  obtain ⟨p, hp, rfl⟩ : ∃ p ∈ located seg.base.length seg.records, p.1 = r := by
    rw [← located_map_fst seg.base.length seg.records] at hr
    exact List.mem_map.mp hr
  refine ⟨p.2, hp, Nat.le_trans (located_stop hp) (h ?_)⟩
  intro hnil
  rw [hnil] at hp
  simp [located] at hp

/-- Writing behind the last record costs no durable record its place. -/
theorem Durable.appendBatch (h : seg.Durable r) (rs : List WalRecord) :
    (seg.appendBatch rs).Durable r := by
  obtain ⟨o, ho, hsync⟩ := h
  refine ⟨o, ?_, ?_⟩
  · simp only [Seg.appendBatch, located_append, List.mem_append]
    exact .inl ho
  · exact Nat.le_min.mpr ⟨hsync, located_stop ho⟩

theorem Durable.tear (h : seg.Durable r) (data : Bytes) : (seg.tear data).Durable r := by
  obtain ⟨o, ho, hsync⟩ := h
  exact ⟨o, ho, Nat.le_min.mpr ⟨hsync, located_stop ho⟩⟩

theorem appendBatch_entries (seg : Seg) (rs : List WalRecord) :
    (seg.appendBatch rs).entries = seg.entries ++ locationsFrom seg.seq seg.stop rs := by
  simp [entries, locationsFrom, appendBatch, located_append, stop]

@[simp] theorem appendBatch_stop (seg : Seg) (rs : List WalRecord) :
    (seg.appendBatch rs).stop = seg.stop + sizeAll rs := by
  simp [stop, appendBatch, Nat.add_assoc]

section Files

variable (crc : Bytes → UInt32)

def bytes (seg : Seg) : Bytes := seg.base ++ encodeRecords crc seg.records ++ seg.tail

def file (seg : Seg) : Nat × SegFile := (seg.seq, ⟨seg.bytes crc, seg.synced⟩)

/-- After a successful `flush_file`. -/
def syncAll (seg : Seg) : Seg := { seg with synced := (seg.bytes crc).length }

theorem stop_le_length (seg : Seg) : seg.stop ≤ (seg.bytes crc).length := by
  simp [stop, bytes]

theorem syncAll_file (seg : Seg) :
    (seg.syncAll crc).file crc = (seg.seq, SegFile.syncData (seg.file crc).2) := rfl

theorem syncAll_synced (seg : Seg) : (seg.syncAll crc).Synced :=
  fun _ => stop_le_length crc seg

theorem Durable.syncAll {seg : Seg} {r : WalRecord} (h : seg.Durable r) :
    (seg.syncAll crc).Durable r := by
  obtain ⟨o, ho, -⟩ := h
  exact ⟨o, ho, Nat.le_trans (located_stop ho) (stop_le_length crc seg)⟩

theorem writeAt_stop (seg : Seg) (data : Bytes) :
    writeAt (seg.bytes crc) seg.stop data =
      seg.base ++ encodeRecords crc seg.records ++ data ++ seg.tail.drop data.length := by
  have hlen : (seg.base ++ encodeRecords crc seg.records).length = seg.stop := by
    simp [stop]
  rw [bytes, ← hlen, writeAt_append]

theorem appendBatch_file (seg : Seg) (rs : List WalRecord) :
    (seg.appendBatch rs).file crc =
      (seg.seq, (seg.file crc).2.writeAll seg.stop (encodeRecords crc rs)) := by
  simp only [file, SegFile.writeAll, writeAt_stop, encodeRecords_length]
  simp [bytes, appendBatch]

theorem tear_file (seg : Seg) (data : Bytes) :
    (seg.tear data).file crc = (seg.seq, (seg.file crc).2.writeAll seg.stop data) := by
  simp only [file, SegFile.writeAll, writeAt_stop]
  simp [bytes, tear]

/-- A record of the segment stands at its offset in the file. -/
theorem encodeRecord_isPrefix {seg : Seg} {r : WalRecord} {o : Nat}
    (h : (r, o) ∈ located seg.base.length seg.records) :
    encodeRecord crc r <+: (seg.bytes crc).drop o := by
  obtain ⟨front, back, hrec, rfl⟩ := mem_located.mp h
  have hsplit : seg.bytes crc = (seg.base ++ encodeRecords crc front) ++
      (encodeRecord crc r ++ (encodeRecords crc back ++ seg.tail)) := by
    simp [bytes, hrec]
  have hlen : (seg.base ++ encodeRecords crc front).length =
      seg.base.length + sizeAll front := by simp
  rw [hsplit, ← hlen, List.drop_left]
  exact List.prefix_append _ _

end Files

end Seg

/-- All segments, and the file a roll has created but not moved to yet. -/
structure Layout where
  closed : List Seg
  active : Seg
  stray : List (Nat × SegFile)

namespace Layout

def segs (L : Layout) : List Seg := L.closed ++ [L.active]

def records (L : Layout) : List WalRecord := L.segs.flatMap Seg.records

def entries (L : Layout) : List (Nat × RecordLocation) := L.segs.flatMap Seg.entries

def files (crc : Bytes → UInt32) (L : Layout) : List (Nat × SegFile) :=
  L.segs.map (Seg.file crc) ++ L.stray

def Durable (L : Layout) (r : WalRecord) : Prop := ∃ seg ∈ L.segs, seg.Durable r

/-- Another active segment in place of the old one. -/
def setActive (L : Layout) (seg : Seg) : Layout := { L with active := seg }

/-- The active segment is closed and the segment `seg` takes its place. -/
def roll (L : Layout) (seg : Seg) : Layout := ⟨L.closed ++ [L.active], seg, []⟩

variable {L : Layout} {seg : Seg} {r : WalRecord}

theorem mem_segs : seg ∈ L.segs ↔ seg ∈ L.closed ∨ seg = L.active := by
  simp [segs]

theorem active_mem (L : Layout) : L.active ∈ L.segs := mem_segs.mpr (.inr rfl)

theorem mem_records (hseg : seg ∈ L.segs) {o : Nat}
    (hr : (r, o) ∈ located seg.base.length seg.records) : r ∈ L.records := by
  refine List.mem_flatMap.mpr ⟨seg, hseg, ?_⟩
  rw [← located_map_fst seg.base.length seg.records]
  exact List.mem_map_of_mem (f := Prod.fst) hr

/-- What holds of all segments still does when the active one is replaced. -/
theorem forall_setActive {P : Seg → Prop} (h : ∀ x ∈ L.segs, P x) (hseg : P seg) :
    ∀ x ∈ (L.setActive seg).segs, P x := by
  intro x hx
  rcases mem_segs.mp hx with hx | rfl
  · exact h x (mem_segs.mpr (.inl hx))
  · exact hseg

@[simp] theorem setActive_segs (L : Layout) (seg : Seg) :
    (L.setActive seg).segs = L.closed ++ [seg] := rfl

@[simp] theorem roll_segs (L : Layout) (seg : Seg) : (L.roll seg).segs = L.segs ++ [seg] := rfl

theorem records_eq (L : Layout) :
    L.records = L.closed.flatMap Seg.records ++ L.active.records := by
  simp [records, segs]

theorem entries_eq (L : Layout) :
    L.entries = L.closed.flatMap Seg.entries ++ L.active.entries := by
  simp [entries, segs]

theorem files_eq (crc : Bytes → UInt32) (L : Layout) :
    L.files crc = L.closed.map (Seg.file crc) ++ [L.active.file crc] ++ L.stray := by
  simp [files, segs]

/-- Replacing the active segment by one that keeps its durable records. -/
theorem Durable.setActive (h : L.Durable r) (hseg : L.active.Durable r → seg.Durable r) :
    (L.setActive seg).Durable r := by
  obtain ⟨old, hold, hdur⟩ := h
  rcases mem_segs.mp hold with hold | rfl
  · exact ⟨old, by simp [hold], hdur⟩
  · exact ⟨seg, by simp, hseg hdur⟩

theorem Durable.roll (h : L.Durable r) (seg : Seg) : (L.roll seg).Durable r := by
  obtain ⟨old, hold, hdur⟩ := h
  exact ⟨old, by simp [hold], hdur⟩

end Layout

end BlipMQ.Wal
