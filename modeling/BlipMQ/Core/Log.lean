import Mathlib.Data.List.Pairwise
import BlipMQ.Core.Entry

/-!
# Broker — the log as the broker sees it

Records in segments, in ascending order of their ids, and the next id. An
append may roll to a new segment first: whether it does depends on sizes and
on how the writer batches, and is left open. `iterate_from` returns records
by id, `compact_below` removes closed segments.
-/

namespace BlipMQ.Core

open Wal (WalError WalRecord)

structure Segment where
  seq : Nat
  records : List WalRecord
  deriving DecidableEq, Repr

def recordsOf (segments : List Segment) : List WalRecord := segments.flatMap Segment.records

structure Log where
  closed : List Segment
  active : Segment
  nextId : Nat
  ascending : ((recordsOf (closed ++ [active])).map WalRecord.id).Pairwise (· < ·)
  bounded : ∀ r ∈ recordsOf (closed ++ [active]), 0 < r.id ∧ r.id < nextId
  pos : 0 < nextId
  nextId_le : nextId ≤ 2 ^ 64

namespace Log

def segments (log : Log) : List Segment := log.closed ++ [log.active]

def records (log : Log) : List WalRecord := recordsOf log.segments

def empty : Log where
  closed := []
  active := ⟨1, []⟩
  nextId := 1
  ascending := List.Pairwise.nil
  bounded := nofun
  pos := by decide
  nextId_le := by decide

/-- `iterate_from`. -/
def iterateFrom (log : Log) (start : Nat) : List WalRecord :=
  log.records.filter (start ≤ ·.id)

/-! ## Appending -/

/-- The segments with one more record, in a new segment if the writer rolls;
it does so only behind a segment that has records. -/
def place (log : Log) (roll : Bool) (r : WalRecord) : List Segment × Segment :=
  if roll && !log.active.records.isEmpty then
    (log.closed ++ [log.active], ⟨log.active.seq + 1, [r]⟩)
  else (log.closed, ⟨log.active.seq, log.active.records ++ [r]⟩)

theorem recordsOf_place (log : Log) (roll : Bool) (r : WalRecord) :
    recordsOf ((log.place roll r).1 ++ [(log.place roll r).2]) = log.records ++ [r] := by
  unfold place
  split <;> simp [recordsOf, records, segments]

/-- The log with a record under the next id, while there are ids left. -/
def append (log : Log) (roll : Bool) (payload : Bytes) : Option Log :=
  if h : log.nextId < 2 ^ 64 then
    let r : WalRecord := ⟨log.nextId, payload⟩
    some {
      closed := (log.place roll r).1
      active := (log.place roll r).2
      nextId := log.nextId + 1
      ascending := by
        rw [recordsOf_place, List.map_append, List.pairwise_append]
        refine ⟨log.ascending, List.pairwise_singleton _ _, ?_⟩
        intro a ha b hb
        obtain ⟨q, hq, rfl⟩ := List.mem_map.mp ha
        rw [List.map_singleton, List.mem_singleton] at hb
        subst hb
        exact (log.bounded q hq).2
      bounded := by
        rw [recordsOf_place]
        exact forall_mem_concat
          (fun q hq => ⟨(log.bounded q hq).1, Nat.lt_succ_of_lt (log.bounded q hq).2⟩)
          ⟨log.pos, Nat.lt_succ_self _⟩
      pos := Nat.succ_pos _
      nextId_le := h }
  else none

/-- An append that failed has taken its id. -/
def skipId (log : Log) : Option Log :=
  if h : log.nextId < 2 ^ 64 then
    some { log with
      nextId := log.nextId + 1
      bounded := fun r hr => ⟨(log.bounded r hr).1, Nat.lt_succ_of_lt (log.bounded r hr).2⟩
      pos := Nat.succ_pos _
      nextId_le := h }
  else none

variable {log : Log}

theorem append_spec {log' : Log} {roll : Bool} {payload : Bytes}
    (h : log.append roll payload = some log') :
    log'.records = log.records ++ [⟨log.nextId, payload⟩] ∧ log'.nextId = log.nextId + 1 := by
  unfold append at h
  split at h
  · cases h
    exact ⟨recordsOf_place .., rfl⟩
  · cases h

theorem skipId_spec {log' : Log} (h : log.skipId = some log') :
    log'.records = log.records ∧ log'.nextId = log.nextId + 1 := by
  unfold skipId at h
  split at h
  · cases h
    exact ⟨rfl, rfl⟩
  · cases h

/-! ## Compaction -/

/-- The closed segments without a record above the threshold. -/
def compactable (log : Log) (safeThreshold : Nat) : List Segment :=
  log.closed.filter fun seg => seg.records.all (·.id ≤ safeThreshold)

/-- The segments one call removes: all it chose, or those in front of the
removal that failed. -/
def compacted (log : Log) (safeThreshold limit : Nat) : List Segment :=
  (log.compactable safeThreshold).take limit

theorem recordsOf_sublist {segs segs' : List Segment} (h : segs.Sublist segs') :
    (recordsOf segs).Sublist (recordsOf segs') := by
  induction h with
  | slnil => exact List.Sublist.refl _
  | cons seg _ ih => exact ih.trans (List.sublist_append_right _ _)
  | cons_cons seg _ ih => exact List.Sublist.append (List.Sublist.refl _) ih

def compactBelow (log : Log) (safeThreshold limit : Nat) : Log :=
  let closed := log.closed.filter (· ∉ log.compacted safeThreshold limit)
  have hsub : (recordsOf (closed ++ [log.active])).Sublist log.records :=
    recordsOf_sublist (List.Sublist.append List.filter_sublist (List.Sublist.refl _))
  { log with
    closed := closed
    ascending := log.ascending.sublist (hsub.map _)
    bounded := fun r hr => log.bounded r (hsub.subset hr) }

theorem compactBelow_records (log : Log) (safeThreshold limit : Nat) :
    (log.compactBelow safeThreshold limit).records.Sublist log.records :=
  recordsOf_sublist (List.Sublist.append List.filter_sublist (List.Sublist.refl _))

theorem le_of_mem_compacted {safeThreshold limit : Nat} {seg : Segment}
    (h : seg ∈ log.compacted safeThreshold limit) {r : WalRecord} (hr : r ∈ seg.records) :
    r.id ≤ safeThreshold := by
  have hmem := (List.mem_filter.mp (List.mem_of_mem_take h)).2
  simpa using List.all_eq_true.mp hmem r hr

/-- A segment that is gone was chosen; the active one stays. -/
theorem mem_compacted {safeThreshold limit : Nat} {seg : Segment} (h : seg ∈ log.segments)
    (hgone : seg ∉ (log.compactBelow safeThreshold limit).segments) :
    seg ∈ log.compacted safeThreshold limit := by
  rcases List.mem_append.mp h with h | h
  · by_contra hkept
    exact hgone (List.mem_append_left _ (List.mem_filter.mpr ⟨h, decide_eq_true hkept⟩))
  · exact absurd (List.mem_append_right _ h) hgone

/-! ## Messages and acks in the log -/

/-- The log of these entries, without rolls. -/
def ofEntries (entries : List WalEntry) : Log :=
  entries.foldl (fun log entry =>
    match entry.encode with
    | .ok payload => (log.append false payload).getD log
    | .error _ => log) empty

/-- The messages with their ids, in log order. -/
def messagesOf (records : List WalRecord) : List (Nat × WalMessageRecord) :=
  records.filterMap fun r => (message? r).map (r.id, ·)

theorem messagesOf_cons (r : WalRecord) (records : List WalRecord) :
    messagesOf (r :: records) = ((message? r).map (r.id, ·)).toList ++ messagesOf records := by
  cases h : message? r <;> simp [messagesOf, h]

def messages (log : Log) : List (Nat × WalMessageRecord) := messagesOf log.records

def messagesOn (log : Log) (topic : String) : List (Nat × WalMessageRecord) :=
  log.messages.filter (·.2.topic = topic)

/-- The ack entries, in log order. -/
def acks (log : Log) : List WalAckRecord := log.records.filterMap ack?

theorem mem_messagesOn {topic : String} {p : Nat × WalMessageRecord} :
    p ∈ log.messagesOn topic ↔ ∃ r ∈ log.records, message? r = some p.2 ∧ r.id = p.1 ∧
      p.2.topic = topic := by
  simp only [messagesOn, messages, messagesOf, List.mem_filter, List.mem_filterMap,
    Option.map_eq_some_iff, decide_eq_true_eq]
  constructor
  · rintro ⟨⟨r, hr, m, hm, rfl⟩, htopic⟩
    exact ⟨r, hr, hm, rfl, htopic⟩
  · rintro ⟨r, hr, hm, hid, htopic⟩
    exact ⟨⟨r, hr, p.2, hm, Prod.ext hid rfl⟩, htopic⟩

theorem pos_of_mem_messagesOn {topic : String} {p : Nat × WalMessageRecord}
    (h : p ∈ log.messagesOn topic) : 0 < p.1 := by
  obtain ⟨r, hr, -, hid, -⟩ := mem_messagesOn.mp h
  exact hid ▸ (log.bounded r hr).1

theorem iterateFrom_one (log : Log) : log.iterateFrom 1 = log.records :=
  List.filter_eq_self.mpr fun r hr => decide_eq_true (log.bounded r hr).1

/-- Ascending numbers from `lo` on and below `n` are at most `n - lo`. -/
theorem length_le_of_ascending {ids : List Nat} {lo n : Nat} (h : ids.Pairwise (· < ·))
    (hids : ∀ i ∈ ids, lo ≤ i ∧ i < n) : ids.length ≤ n - lo := by
  induction ids generalizing lo with
  | nil => exact Nat.zero_le _
  | cons i ids ih =>
    obtain ⟨hi, hrest⟩ := List.pairwise_cons.mp h
    have hgt : ∀ j ∈ ids, i + 1 ≤ j ∧ j < n := fun j hj => ⟨hi j hj, (hids j (by simp [hj])).2⟩
    have hle := ih hrest hgt
    have := hids i (by simp)
    simp only [List.length_cons]
    omega

/-- A log has fewer records than there are ids. -/
theorem length_records_lt (log : Log) : log.records.length < 2 ^ 64 := by
  have hle : log.records.length ≤ log.nextId - 1 := by
    rw [← List.length_map (f := WalRecord.id)]
    refine length_le_of_ascending log.ascending fun i hi => ?_
    obtain ⟨r, hr, rfl⟩ := List.mem_map.mp hi
    exact log.bounded r hr
  have h₁ := log.pos
  have h₂ := log.nextId_le
  omega

end Log

end BlipMQ.Core
