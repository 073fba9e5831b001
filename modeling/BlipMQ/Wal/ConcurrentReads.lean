import BlipMQ.Wal.CompactedReads

/-!
# WAL — reading beside a compaction

`iterate_from` takes its start from the index, lists the directory and then
opens one segment after the other. It holds no lock from one of these to the
next. A call of `compact_below` may remove a file that is listed and not yet
opened, and then the reader returns an error. A file that is removed is
never one with a record above the threshold.
-/

namespace BlipMQ.Wal

/-! ## The steps of the reader -/

/-- Where a call of `iterate_from` stands. -/
inductive Reader where
  | called
  | chosen (startSeq startOffset minId : Nat)
  | reading (startSeq startOffset minId : Nat) (rest : List Nat) (records : List WalRecord)
  | done (result : Except WalError (List WalRecord))
  deriving DecidableEq

/-- A log at rest with calls of `compact_below` and one of `iterate_from`. -/
structure Reading where
  compacting : Compacting
  reader : Reader

inductive ReadAction where
  /-- The next step of the reader. -/
  | iterate
  | compact (a : CompactAction)
  deriving DecidableEq

/-- What `File::open` says of a file that has been removed. -/
def notFound : WalError := .io "No such file or directory (os error 2)"

namespace Compacting

/-- The start, from the index under its lock. -/
def chooseStart (c : Compacting) (fromId : Nat) : Reader :=
  match firstFrom c.log.index fromId with
  | none => .done (.ok [])
  | some (minId, loc) => .chosen loc.segmentSeq loc.offsetInSegment minId

/-- `File::open` of one segment, and its records behind the place to start from. -/
def openNext (crc : Bytes → UInt32) (c : Compacting) (startSeq startOffset minId seq : Nat)
    (rest : List Nat) (records : List WalRecord) : Reader :=
  match c.contents.find? seq with
  | none => .done (.error notFound)
  | some file =>
    let start := if seq = startSeq then startOffset else headerLen
    match scanRecords crc (file.drop start) start with
    | .error e => .done (.error e)
    | .ok (found, _) => .reading startSeq startOffset minId rest
        (records ++ (found.map Prod.fst).filter fun r => minId ≤ r.id)

end Compacting

namespace Reading

/-- Earlier calls are of no interest. -/
def start (c : Compacting) : Reading := ⟨{ c with compactors := [] }, .called⟩

def stepReader (crc : Bytes → UInt32) (fromId : Nat) (s : Reading) : Option Reading :=
  match s.reader with
  | .called => some { s with reader := s.compacting.chooseStart fromId }
  | .chosen startSeq startOffset minId =>
    let listed := s.compacting.listSegmentSeqs.filter (startSeq ≤ ·)
    some { s with reader := .reading startSeq startOffset minId listed [] }
  | .reading _ _ _ [] records => some { s with reader := .done (.ok records) }
  | .reading startSeq startOffset minId (seq :: rest) records =>
    some { s with
      reader := s.compacting.openNext crc startSeq startOffset minId seq rest records }
  | .done _ => none

def step (crc : Bytes → UInt32) (fromId : Nat) (s : Reading) : ReadAction → Option Reading
  | .iterate => s.stepReader crc fromId
  | .compact a =>
    -- nothing is appended
    if a.isLog then none
    else (s.compacting.step crc a).map fun c => { s with compacting := c }

/-! ## The conditions -/

/-- The file whose turn it is has not been removed. -/
def Finds (s : Reading) : ReadAction → Prop
  | .compact _ => True
  | .iterate =>
    match s.reader with
    | .reading _ _ _ (seq :: _) _ => seq ∈ s.compacting.listSegmentSeqs
    | _ => True

/-- No record above the threshold that is asked for stands before the place where the
reader starts. -/
def StartsFirst (fromId t : Nat) (records : List (WalRecord × RecordLocation)) (s : Reading) :
    ReadAction → Prop
  | .compact _ => True
  | .iterate =>
    match s.reader with
    | .called => ∀ minId loc, firstFrom s.compacting.log.index fromId = some (minId, loc) →
        ∀ x ∈ records, fromId ≤ x.1.id → t < x.1.id → loc ≤ x.2
    | _ => True

def Unhindered (fromId t : Nat) (records : List (WalRecord × RecordLocation)) (s : Reading)
    (a : ReadAction) : Prop :=
  s.Finds a ∧ s.StartsFirst fromId t records a

end Reading

/-! ## What the calls leave alone -/

/-- A call with a threshold up to `t` has its eye on segments without an id above `t`
only. -/
def Compactor.Within (index : Index) (t : Nat) : Compactor → Prop
  | .loaded safeThreshold _ => safeThreshold ≤ t
  | .scanned safeThreshold _ maxIds _ =>
    safeThreshold ≤ t ∧
      ∀ q, (∀ m, maxIds.lookup q = some m → m ≤ t) → NothingAbove index t q
  | .removing _ toDelete rest _ =>
    (∀ q ∈ toDelete, NothingAbove index t q) ∧ ∀ q ∈ rest, NothingAbove index t q
  | .done _ => True

/-- Calls with thresholds up to `t`, on a log that was at rest as `c₀`. -/
structure Beside (c₀ : Compacting) (t : Nat) (c : Compacting) : Prop extends Spares c₀ t c where
  within : ∀ k ∈ c.compactors, k.Within c₀.log.index t

section Beside

variable {crc : Bytes → UInt32} {c₀ c c' : Compacting} {t : Nat} {segs : List StoredSegment}

theorem beside_start (c : Compacting) (t : Nat) : Beside c t { c with compactors := [] } :=
  ⟨{ Spares.refl c t with }, List.forall_mem_nil _⟩

theorem Beside.setCompactor (h : Beside c₀ t c) (i : Nat) {k : Compactor}
    (hk : k.Within c₀.log.index t) : Beside c₀ t (c.setCompactor i k) := by
  refine ⟨{ h.toSpares with }, fun x hx => ?_⟩
  rcases List.mem_or_eq_of_mem_set hx with hx | rfl
  · exact h.within x hx
  · exact hk

/-- What the index has above `t` it still has at the scan. -/
theorem Spares.nothingAbove (h : Spares c₀ t c) {q : Nat}
    (hmax : ∀ m, (maxIdPerSegment c.log.index).lookup q = some m → m ≤ t) :
    NothingAbove c₀.log.index t q := by
  intro id loc hlook hseq
  by_contra hid
  exact hid (nothingAbove_of_maxIds hmax id loc (h.above id loc hlook (Nat.lt_of_not_le hid)) hseq)

/-- One step of a call. -/
theorem Beside.step (h : Beside c₀ t c) {a : CompactAction} (hcall : a.isLog = false)
    (ht : ∀ t', a = .compactBelow t' → t' ≤ t) (hs : c.step crc a = some c') :
    Beside c₀ t c' := by
  cases Compacting.callStep hcall hs with
  | started t' =>
    exact ⟨{ h.toSpares with }, forall_mem_concat h.within (ht t' rfl)⟩
  | @scanned i safeThreshold activeSeq hk =>
    have hwithin := h.within _ (List.mem_of_getElem? hk)
    exact h.setCompactor i ⟨hwithin, fun q hmax => h.nothingAbove hmax⟩
  | @notListed i safeThreshold activeSeq activeAtScan maxIds hk reason =>
    exact h.setCompactor i trivial
  | @listed i safeThreshold activeSeq activeAtScan maxIds hk =>
    obtain ⟨hle, hmax⟩ := h.within _ (List.mem_of_getElem? hk)
    have hchosen : ∀ q ∈ segmentsToDelete safeThreshold activeSeq maxIds c.listSegmentSeqs,
        NothingAbove c₀.log.index t q :=
      fun q hq => hmax q fun m hm => Nat.le_trans (maxId_le_of_chosen hq hm) hle
    exact h.setCompactor i ⟨hchosen, hchosen⟩
  | @notRemoved i safeThreshold seq deleted toDelete rest hk hlisted reason =>
    exact h.setCompactor i trivial
  | @removed i safeThreshold seq deleted toDelete rest hk hlisted =>
    obtain ⟨htoDelete, hrest⟩ := h.within _ (List.mem_of_getElem? hk)
    obtain ⟨hseq, hrest⟩ := List.forall_mem_cons.mp hrest
    have hset := h.setCompactor i (k := .removing safeThreshold toDelete rest (deleted + 1))
      ⟨htoDelete, hrest⟩
    refine ⟨⟨h.log, h.index, h.above, fun q hq => ?_, fun q hq => ?_⟩, hset.within⟩
    · exact Compacting.mem_removedSeqs_concat.mpr (.inl (h.older q hq))
    · rcases Compacting.mem_removedSeqs_concat.mp hq with hq | rfl
      · exact h.removed q hq
      · exact .inr hseq
  | @passedOver i safeThreshold seq deleted toDelete rest hk hgone result =>
    obtain ⟨htoDelete, hrest⟩ := h.within _ (List.mem_of_getElem? hk)
    exact h.setCompactor i ⟨htoDelete, (List.forall_mem_cons.mp hrest).2⟩
  | @pruned i safeThreshold deleted toDelete hk =>
    obtain ⟨htoDelete, -⟩ := h.within _ (List.mem_of_getElem? hk)
    have hset := h.setCompactor i (k := .done (.ok deleted)) trivial
    refine ⟨⟨h.log, fun id loc hlook => h.index id loc (lookup_pruned.mp hlook).1, ?_, h.older,
      h.removed⟩, hset.within⟩
    intro id loc hlook hid
    refine lookup_pruned.mpr ⟨h.above id loc hlook hid, fun _ hmem => ?_⟩
    exact absurd (htoDelete _ hmem id loc hlook rfl) (Nat.not_le_of_lt hid)

/-! ## Opening what is listed -/

/-- A segment that is still listed is found as it was. -/
theorem Spares.find?_of_listed (h : Spares c₀ t c) (hrest : Resting crc c₀ segs)
    {seg : StoredSegment} (hseg : seg ∈ segs) (hlisted : seg.seq ∈ c.listSegmentSeqs) :
    c.contents.find? seg.seq = some (seg.file crc).2 := by
  have hnot := (Compacting.mem_listSegmentSeqs.mp hlisted).2
  rw [Dir.find?_eq_some, h.files hrest]
  exact List.mem_map_of_mem (f := StoredSegment.file crc)
    (List.mem_filter.mpr ⟨hseg, decide_eq_true hnot⟩)

theorem find?_of_not_listed {q : Nat} (hq : q ∉ c.listSegmentSeqs) :
    c.contents.find? q = none := by
  cases hfind : c.contents.find? q with
  | none => rfl
  | some file =>
    rw [listSegmentSeqs_eq] at hq
    exact absurd (Dir.mem_seqs_of_find? hfind) hq

theorem Spares.openNext_of_listed (h : Spares c₀ t c) (hrest : Resting crc c₀ segs)
    {seg : StoredSegment} (hseg : seg ∈ segs) (hlisted : seg.seq ∈ c.listSegmentSeqs)
    {startSeq startOffset stop : Nat} {found : List (WalRecord × Nat)}
    (hscan : scanRecords crc
      ((seg.file crc).2.drop (if seg.seq = startSeq then startOffset else headerLen))
      (if seg.seq = startSeq then startOffset else headerLen) = .ok (found, stop))
    (minId : Nat) (rest : List Nat) (records : List WalRecord) :
    c.openNext crc startSeq startOffset minId seg.seq rest records =
      .reading startSeq startOffset minId rest
        (records ++ (found.map Prod.fst).filter fun r => minId ≤ r.id) := by
  rw [Compacting.openNext, h.find?_of_listed hrest hseg hlisted]
  dsimp only
  rw [hscan]

theorem openNext_of_not_listed (crc : Bytes → UInt32) {q : Nat} (hq : q ∉ c.listSegmentSeqs)
    (startSeq startOffset minId : Nat) (rest : List Nat) (records : List WalRecord) :
    c.openNext crc startSeq startOffset minId q rest records = .done (.error notFound) := by
  rw [Compacting.openNext, find?_of_not_listed hq]

/-- The segments that are listed, from a number on. -/
theorem Spares.listed_eq (h : Spares c₀ t c) (hrest : Resting crc c₀ segs) (startSeq : Nat) :
    c.listSegmentSeqs.filter (startSeq ≤ ·) = (segs.filter fun seg =>
      startSeq ≤ seg.seq && seg.seq ∉ c.removedSeqs).map StoredSegment.seq := by
  rw [h.listSegmentSeqs_eq hrest, List.filter_map, List.filter_filter]
  rfl

theorem Spares.length_listed_le (h : Spares c₀ t c) (startSeq : Nat) :
    (c.listSegmentSeqs.filter (startSeq ≤ ·)).length ≤ c₀.listSegmentSeqs.length := by
  refine Nat.le_trans (List.length_filter_le _ _) ?_
  unfold Compacting.listSegmentSeqs
  rw [h.dir]
  refine (List.monotone_filter_right _ fun q hq => ?_).length_le
  exact decide_eq_true fun hold => of_decide_eq_true hq (h.older q hold)

end Beside

/-! ## Runs of the reader -/

section Runs

variable {crc : Bytes → UInt32} {c₀ : Compacting} {segs : List StoredSegment} {fromId t : Nat}
  {R : List (WalRecord × RecordLocation)} {s s' : Reading} {acts : List ReadAction}

theorem Reading.step_compact {a : CompactAction} (hs : s.step crc fromId (.compact a) = some s') :
    a.isLog = false ∧ s.compacting.step crc a = some s'.compacting ∧ s'.reader = s.reader := by
  simp only [Reading.step] at hs
  split at hs
  · cases hs
  · rename_i hlog
    obtain ⟨c, hc, rfl⟩ := Option.map_eq_some_iff.mp hs
    exact ⟨by simpa using hlog, hc, rfl⟩

variable {result : Except WalError (List WalRecord)}

/-- Who has returned does nothing more. -/
theorem Reading.run_done {result' : Except WalError (List WalRecord)}
    (hreader : s.reader = .done result) (hrun : run (Reading.step crc fromId) s acts = some s')
    (hdone : s'.reader = .done result') :
    result' = result ∧
      Meets (Reading.step crc fromId) (Reading.Unhindered fromId t R) s acts := by
  induction acts generalizing s with
  | nil =>
    cases hrun
    rw [hdone, Reader.done.injEq] at hreader
    exact ⟨hreader, trivial⟩
  | cons a acts ih =>
    obtain ⟨u, hu, hrest⟩ := run_cons.mp hrun
    cases a with
    | iterate => simp [Reading.step, Reading.stepReader, hreader] at hu
    | compact a =>
      have hsame := (Reading.step_compact hu).2.2.trans hreader
      refine ⟨(ih hsame hrest).1, ⟨trivial, trivial⟩, fun v hv => ?_⟩
      rw [hu] at hv
      cases hv
      exact (ih hsame hrest).2

/-- A step of a call, in a run whose thresholds are at most `t`. -/
theorem Beside.compact_step (h : Beside c₀ t s.compacting) {a : CompactAction}
    (hbelow : ∀ t', ReadAction.compact (.compactBelow t') ∈ ReadAction.compact a :: acts → t' ≤ t)
    (hs : s.step crc fromId (.compact a) = some s') :
    Beside c₀ t s'.compacting ∧ s'.reader = s.reader := by
  obtain ⟨hcall, hstep, hsame⟩ := Reading.step_compact hs
  refine ⟨h.step hcall (fun t' ht' => hbelow t' ?_) hstep, hsame⟩
  rw [ht']
  exact List.mem_cons_self

/-- Up to its next step the reader waits while the calls go on. -/
theorem Reading.next_step (h : Beside c₀ t s.compacting)
    (hbelow : ∀ t', ReadAction.compact (.compactBelow t') ∈ acts → t' ≤ t)
    (hrun : run (Reading.step crc fromId) s acts = some s') (hmoves : s'.reader ≠ s.reader) :
    ∃ c later u, Beside c₀ t c ∧
      (∀ t', ReadAction.compact (.compactBelow t') ∈ later → t' ≤ t) ∧
      Reading.stepReader crc fromId ⟨c, s.reader⟩ = some u ∧
      run (Reading.step crc fromId) u later = some s' ∧
      (Meets (Reading.step crc fromId) (Reading.Unhindered fromId t R) s acts ↔
        Reading.Unhindered fromId t R ⟨c, s.reader⟩ .iterate ∧
          Meets (Reading.step crc fromId) (Reading.Unhindered fromId t R) u later) := by
  induction acts generalizing s with
  | nil =>
    cases hrun
    exact absurd rfl hmoves
  | cons a acts ih =>
    obtain ⟨u, hu, hlater⟩ := run_cons.mp hrun
    have hbelow' : ∀ t', ReadAction.compact (.compactBelow t') ∈ acts → t' ≤ t :=
      fun t' ht' => hbelow t' (List.mem_cons_of_mem _ ht')
    have hmeets : Meets (Reading.step crc fromId) (Reading.Unhindered fromId t R) s
        (a :: acts) ↔ Reading.Unhindered fromId t R s a ∧
          Meets (Reading.step crc fromId) (Reading.Unhindered fromId t R) u acts := by
      simp [Meets, hu]
    cases a with
    | iterate => exact ⟨s.compacting, acts, u, h, hbelow', hu, hlater, hmeets⟩
    | compact a =>
      obtain ⟨hnext, hsame⟩ := h.compact_step hbelow hu
      obtain ⟨c, later, v, hc, hlaterBelow, hv, hvrun, hiff⟩ :=
        ih hnext hbelow' hlater (by rwa [hsame])
      rw [hsame] at hv hiff
      refine ⟨c, later, v, hc, hlaterBelow, hv, hvrun, ?_⟩
      rw [hmeets, hiff]
      exact and_iff_right ⟨trivial, trivial⟩

/-- How a call ends: with what the walk finds if nothing hinders it, and otherwise with
an error. -/
def Ends (crc : Bytes → UInt32) (fromId t : Nat) (R : List (WalRecord × RecordLocation))
    (s : Reading) (acts : List ReadAction) (result : Except WalError (List WalRecord))
    (out : List WalRecord) : Prop :=
  Meets (Reading.step crc fromId) (Reading.Unhindered fromId t R) s acts ∧
      result = .ok out ∨
    ¬ Meets (Reading.step crc fromId) (Reading.Unhindered fromId t R) s acts ∧
      ∃ e, result = .error e

theorem Ends.of_next {u : Reading} {later : List ReadAction} {P : Prop} {out : List WalRecord}
    (hmeets : Meets (Reading.step crc fromId) (Reading.Unhindered fromId t R) s acts ↔
      P ∧ Meets (Reading.step crc fromId) (Reading.Unhindered fromId t R) u later) (hP : P)
    (h : Ends crc fromId t R u later result out) : Ends crc fromId t R s acts result out := by
  unfold Ends
  rw [hmeets, and_iff_right hP]
  exact h

theorem Reading.reading_ends (hrest : Resting crc c₀ segs) {startSeq startOffset minId : Nat}
    {listed : List StoredSegment} {found more : List WalRecord}
    (hlisted : ∀ seg ∈ listed, seg ∈ segs)
    (hwalk : walkSegments crc startSeq startOffset minId (listed.map (StoredSegment.file crc)) =
      .ok more) (h : Beside c₀ t s.compacting)
    (hreader : s.reader = .reading startSeq startOffset minId (listed.map StoredSegment.seq) found)
    (hbelow : ∀ t', ReadAction.compact (.compactBelow t') ∈ acts → t' ≤ t)
    (hrun : run (Reading.step crc fromId) s acts = some s') (hdone : s'.reader = .done result) :
    Ends crc fromId t R s acts result (found ++ more) := by
  induction listed generalizing s acts found more with
  | nil =>
    obtain ⟨c, later, u, -, -, hu, hlater, hmeets⟩ :=
      Reading.next_step (R := R) h hbelow hrun (by rw [hdone, hreader]; simp)
    rw [hreader] at hu hmeets
    cases hu
    cases hwalk
    obtain ⟨hres, hon⟩ := Reading.run_done (t := t) (R := R) rfl hlater hdone
    refine .inl ⟨hmeets.mpr ⟨⟨trivial, trivial⟩, hon⟩, ?_⟩
    rw [hres, List.append_nil]
  | cons seg listed ih =>
    obtain ⟨hseg, hlast⟩ := List.forall_mem_cons.mp hlisted
    obtain ⟨got, stop, more, hscan, hmore, rfl⟩ := walkSegments_cons_ok hwalk
    obtain ⟨c, later, u, hc, hlaterBelow, hu, hlater, hmeets⟩ :=
      Reading.next_step (R := R) h hbelow hrun (by rw [hdone, hreader]; simp)
    rw [hreader] at hu hmeets
    cases hu
    by_cases hthere : seg.seq ∈ c.listSegmentSeqs
    · have hopen := hc.openNext_of_listed hrest hseg hthere hscan minId
        (listed.map StoredSegment.seq) found
      rw [← List.append_assoc]
      exact .of_next hmeets ⟨hthere, trivial⟩ (ih hlast hmore hc hopen hlaterBelow hlater)
    · have hopen := openNext_of_not_listed crc hthere startSeq startOffset minId
        (listed.map StoredSegment.seq) found
      obtain ⟨hres, -⟩ := Reading.run_done (t := t) (R := R) hopen hlater hdone
      exact .inr ⟨fun hon => hthere (hmeets.mp hon).1.1, _, hres⟩

/-- From the listing on. What the walk finds above the threshold is what stands behind
the start. -/
theorem Reading.chosen_ends (hrest : Resting crc c₀ segs) {minId : Nat} {loc : RecordLocation}
    (hlook : c₀.log.index.lookup minId = some loc) (h : Beside c₀ t s.compacting)
    (hreader : s.reader = .chosen loc.segmentSeq loc.offsetInSegment minId)
    (hbelow : ∀ t', ReadAction.compact (.compactBelow t') ∈ acts → t' ≤ t)
    (hrun : run (Reading.step crc fromId) s acts = some s') (hdone : s'.reader = .done result) :
    ∃ out, Ends crc fromId t R s acts result out ∧
      ∀ x ∈ allLocated segs, t < x.1.id → minId ≤ x.1.id → (x.1 ∈ out ↔ loc ≤ x.2) := by
  obtain ⟨c, later, u, hc, hlaterBelow, hu, hlater, hmeets⟩ :=
    Reading.next_step (R := R) h hbelow hrun (by rw [hdone, hreader]; simp)
  rw [hreader] at hu hmeets
  cases hu
  have hwalk := hrest.walk_eq hlook fun q => q ∉ c.removedSeqs
  have hlisted := congrArg (fun rest => Reader.reading loc.segmentSeq loc.offsetInSegment minId
    rest []) (hc.listed_eq hrest loc.segmentSeq)
  refine ⟨_, .of_next hmeets ⟨trivial, trivial⟩ (Reading.reading_ends hrest
    (fun seg hseg => List.mem_of_mem_filter hseg) hwalk hc hlisted hlaterBelow hlater hdone), ?_⟩
  intro x hx hid hle
  rw [List.nil_append, ← allLocated_filter segs fun q => q ∉ c.removedSeqs]
  exact hrest.mem_walkFrom (p := fun q => q ∉ c.removedSeqs) hx hle
    (decide_eq_true (hc.not_removed hrest hx hid))

/-- The whole call. -/
theorem Reading.called_ends (hrest : Resting crc c₀ segs) (h : Beside c₀ t s.compacting)
    (hreader : s.reader = .called)
    (hbelow : ∀ t', ReadAction.compact (.compactBelow t') ∈ acts → t' ≤ t)
    (hrun : run (Reading.step crc fromId) s acts = some s') (hdone : s'.reader = .done result)
    (hR : R = allLocated segs) :
    (∃ out, result = .ok out ∧ ∀ x ∈ R, fromId ≤ x.1.id → t < x.1.id → x.1 ∈ out) ↔
      Meets (Reading.step crc fromId) (Reading.Unhindered fromId t R) s acts := by
  obtain ⟨c, later, u, hc, hlaterBelow, hu, hlater, hmeets⟩ :=
    Reading.next_step (R := R) h hbelow hrun (by rw [hdone, hreader]; simp)
  rw [hreader] at hu hmeets
  rw [hmeets]
  cases hu
  cases hfirst : firstFrom c.log.index fromId with
  | none =>
    have hreader' : c.chooseStart fromId = .done (.ok []) := by
      rw [Compacting.chooseStart, hfirst]
    obtain ⟨hres, hon⟩ := Reading.run_done (t := t) (R := R) hreader' hlater hdone
    -- then the index has nothing from here on, so nothing is above the threshold
    refine iff_of_true ⟨[], hres, fun x hx hle hid => ?_⟩ ⟨⟨trivial, ?_⟩, hon⟩
    · have hlook := hc.above _ _ (hrest.lookup (hR ▸ hx)) hid
      exact absurd hle (Nat.not_le_of_lt (firstFrom_none hfirst hlook))
    · intro minId loc hsome
      rw [hfirst] at hsome
      cases hsome
  | some first =>
    obtain ⟨minId, loc⟩ := first
    obtain ⟨hlook, -, hleast⟩ := firstFrom_some hfirst
    have hreader' : c.chooseStart fromId = .chosen loc.segmentSeq loc.offsetInSegment minId := by
      rw [Compacting.chooseStart, hfirst]
    obtain ⟨out, hends, hmem⟩ := Reading.chosen_ends (R := R) hrest (hc.index minId loc hlook) hc
      hreader' hlaterBelow hlater hdone
    have hle : ∀ x ∈ R, fromId ≤ x.1.id → t < x.1.id → minId ≤ x.1.id := by
      intro x hx hle hid
      exact hleast _ _ (hc.above _ _ (hrest.lookup (hR ▸ hx)) hid) hle
    rw [← hR] at hmem
    rcases hends with ⟨hon, rfl⟩ | ⟨hnot, e, rfl⟩
    · constructor
      · rintro ⟨out', heq, hall⟩
        cases heq
        refine ⟨⟨trivial, fun minId' loc' hsome x hx hfrom hid => ?_⟩, hon⟩
        rw [hfirst] at hsome
        cases hsome
        exact (hmem x hx hid (hle x hx hfrom hid)).mp (hall x hx hfrom hid)
      · rintro ⟨⟨-, hstarts⟩, -⟩
        refine ⟨out, rfl, fun x hx hfrom hid => ?_⟩
        exact (hmem x hx hid (hle x hx hfrom hid)).mpr (hstarts minId loc hfirst x hx hfrom hid)
    · refine iff_of_false ?_ fun hon => hnot hon.2
      rintro ⟨out', heq, -⟩
      cases heq

/-! ## The reader returns -/

/-- How many steps a call still takes at most, with `n` files in the directory. -/
def Reader.left (n : Nat) : Reader → Nat
  | .called => n + 3
  | .chosen .. => n + 2
  | .reading _ _ _ rest _ => rest.length + 1
  | .done _ => 0

theorem Reading.left_step {n : Nat} {u : Reading}
    (hn : ∀ startSeq, (s.compacting.listSegmentSeqs.filter (startSeq ≤ ·)).length ≤ n)
    (hu : s.stepReader crc fromId = some u) :
    u.compacting = s.compacting ∧ u.reader.left n < s.reader.left n := by
  obtain ⟨c, reader⟩ := s
  cases reader with
  | called =>
    cases hu
    refine ⟨rfl, ?_⟩
    dsimp only [Compacting.chooseStart]
    split <;> simp only [Reader.left] <;> omega
  | chosen startSeq startOffset minId =>
    cases hu
    have hlisted : (c.listSegmentSeqs.filter (startSeq ≤ ·)).length ≤ n := hn startSeq
    refine ⟨rfl, ?_⟩
    simp only [Reader.left]
    omega
  | reading startSeq startOffset minId rest records =>
    cases rest with
    | nil =>
      cases hu
      exact ⟨rfl, Nat.zero_lt_one⟩
    | cons seq rest =>
      cases hu
      refine ⟨rfl, ?_⟩
      dsimp only [Compacting.openNext]
      repeat' split
      all_goals
        simp only [Reader.left, List.length_cons]
        omega
  | done result => cases hu

theorem Reading.count_iterate (h : Beside c₀ t s.compacting)
    (hbelow : ∀ t', ReadAction.compact (.compactBelow t') ∈ acts → t' ≤ t)
    (hrun : run (Reading.step crc fromId) s acts = some s') :
    acts.count .iterate + s'.reader.left c₀.listSegmentSeqs.length ≤
      s.reader.left c₀.listSegmentSeqs.length := by
  induction acts generalizing s with
  | nil =>
    cases hrun
    exact Nat.le_of_eq (Nat.zero_add _)
  | cons a acts ih =>
    obtain ⟨u, hu, hlater⟩ := run_cons.mp hrun
    have hbelow' : ∀ t', ReadAction.compact (.compactBelow t') ∈ acts → t' ≤ t :=
      fun t' ht' => hbelow t' (List.mem_cons_of_mem _ ht')
    cases a with
    | iterate =>
      obtain ⟨hsame, hlt⟩ := Reading.left_step h.length_listed_le hu
      have := ih (hsame ▸ h) hbelow' hlater
      rw [List.count_cons_self]
      omega
    | compact a =>
      obtain ⟨hnext, hsame⟩ := h.compact_step hbelow hu
      have := ih hnext hbelow' hlater
      rw [List.count_cons_of_ne (by simp), ← hsame]
      exact this

theorem Reading.stepReader_isSome (h : ∀ result, s.reader ≠ .done result) :
    (s.stepReader crc fromId).isSome := by
  obtain ⟨c, reader⟩ := s
  cases reader with
  | called => rfl
  | chosen startSeq startOffset minId => rfl
  | reading startSeq startOffset minId rest records => cases rest <;> rfl
  | done result => exact absurd rfl (h result)

end Runs

/-- The records a scan finds in the files that have a name, each with its place. -/
def Compacting.recordsFound (crc : Bytes → UInt32) (c : Compacting) :
    List (WalRecord × RecordLocation) :=
  c.contents.files.flatMap fun p =>
    match scanRecords crc (p.2.drop headerLen) headerLen with
    | .error _ => []
    | .ok (found, _) => found.map fun x => (x.1, ⟨p.1, x.2⟩)

theorem Resting.recordsFound_eq {crc : Bytes → UInt32} {c : Compacting}
    {segs : List StoredSegment} (h : Resting crc c segs) :
    c.recordsFound crc = allLocated segs := by
  rw [Compacting.recordsFound, h.clean.files, List.flatMap_map]
  refine List.flatMap_congr fun seg hseg => ?_
  rw [h.scan_file hseg]
  rfl

/-- **When a reader survives compaction beside it.** Until it has returned it has a
step to take, and it takes a bounded number of them. It returns `Ok` with every
record above the threshold that was asked for exactly if no file is removed between
the listing and its turn, and no such record stands before the place the reader
starts from. -/
theorem reader_survives_iff {crc : Bytes → UInt32} {config : WalConfig} {dir : Dir Bytes}
    {segs : List StoredSegment} {o : Opened} (hclean : CleanLog crc dir segs)
    (hopen : openWithConfig crc config (.directory dir) = .ok o) {synced : Nat → Nat}
    {as : List CompactAction} {c : Compacting}
    (hrun : run (Compacting.step crc) (Compacting.start o config synced) as = some c)
    (hids : o.nextId + c.log.taken < 2 ^ 64) (hidle : c.log.pc = .idle) (f t : Nat)
    {acts : List ReadAction} {s : Reading}
    (hbelow : ∀ t', ReadAction.compact (.compactBelow t') ∈ acts → t' ≤ t)
    (hacts : run (Reading.step crc f) (.start c) acts = some s) :
    ((∀ result, s.reader ≠ .done result) → (s.stepReader crc f).isSome ∧
      acts.count .iterate < c.listSegmentSeqs.length + 3) ∧
    ∀ result, s.reader = .done result →
      ((∃ out, result = .ok out ∧
          ∀ x ∈ c.recordsFound crc, f ≤ x.1.id → t < x.1.id → x.1 ∈ out) ↔
        Meets (Reading.step crc f) (Reading.Unhindered f t (c.recordsFound crc)) (.start c)
          acts) := by
  obtain ⟨segs', h⟩ := hclean.run_resting hopen hrun hids hidle
  have hstart := beside_start c t
  constructor
  · intro hgoing
    refine ⟨Reading.stepReader_isSome hgoing, ?_⟩
    have hcount := Reading.count_iterate (s := .start c) hstart hbelow hacts
    have hleft : 0 < s.reader.left c.listSegmentSeqs.length := by
      cases hreader : s.reader with
      | called => exact Nat.succ_pos _
      | chosen startSeq startOffset minId => exact Nat.succ_pos _
      | reading startSeq startOffset minId rest records => exact Nat.succ_pos _
      | done result => exact absurd hreader (hgoing result)
    have hall : (Reading.start c).reader.left c.listSegmentSeqs.length =
        c.listSegmentSeqs.length + 3 := rfl
    omega
  · intro result hdone
    exact Reading.called_ends (s := .start c) h hstart rfl hbelow hacts hdone h.recordsFound_eq

/-- A call of `compact_below(1)` up to the removal of the first segment. -/
def removeFirst : List ReadAction :=
  [.compact (.compactBelow 1), .compact (.scanIndex 0), .compact (.listDir 0 .ok),
    .compact (.removeNext 0 .ok)]

/-- The reader starts in the second segment, and the first is removed before it lists
the directory. -/
theorem reader_survives_iff_second_segment :
    ∃ c s, run (Compacting.step Crc32.crc32)
        (Compacting.start freshLog tinyConfig fun _ => headerLen) (twoSegmentRun.map .log) =
          some c ∧
      run (Reading.step Crc32.crc32 2) (.start c)
        (.iterate :: removeFirst ++ List.replicate 3 .iterate) = some s ∧
      s.reader = .done (.ok [⟨2, [9]⟩]) ∧
      Meets (Reading.step Crc32.crc32 2) (Reading.Unhindered 2 1 (c.recordsFound Crc32.crc32))
        (.start c) (.iterate :: removeFirst ++ List.replicate 3 .iterate) := by
  obtain ⟨c, hc, hids, hidle, hfound, s, hs, hreader⟩ : ∃ c, run (Compacting.step Crc32.crc32)
      (Compacting.start freshLog tinyConfig fun _ => headerLen) (twoSegmentRun.map .log) = some c ∧
        freshLog.nextId + c.log.taken < 2 ^ 64 ∧ c.log.pc = .idle ∧
        c.recordsFound Crc32.crc32 =
          [(⟨1, [7, 7, 7, 7, 7, 7, 7, 7]⟩, ⟨1, headerLen⟩), (⟨2, [9]⟩, ⟨2, headerLen⟩)] ∧
        ∃ s, run (Reading.step Crc32.crc32 2) (.start c)
            (.iterate :: removeFirst ++ List.replicate 3 .iterate) = some s ∧
          s.reader = .done (.ok [⟨2, [9]⟩]) := by decide +kernel
  have hiff := (reader_survives_iff (cleanLog_empty _) open_empty hc hids hidle 2 1
    (by simp [removeFirst]) hs).2 _ hreader
  refine ⟨c, s, hc, hs, hreader, hiff.mp ⟨_, rfl, ?_⟩⟩
  rw [hfound]
  decide

/-- The reader has listed both segments when the first is removed. It returns an error,
and with it the record in the second segment is lost to its caller. -/
theorem reader_fails_on_removed_segment :
    ∃ c s, run (Compacting.step Crc32.crc32)
        (Compacting.start freshLog tinyConfig fun _ => headerLen) (twoSegmentRun.map .log) =
          some c ∧
      c.log.pc = .idle ∧ (⟨2, [9]⟩, ⟨2, headerLen⟩) ∈ c.recordsFound Crc32.crc32 ∧
      run (Reading.step Crc32.crc32 1) (.start c)
        ([.iterate, .iterate] ++ removeFirst ++ [.iterate]) = some s ∧
      s.reader = .done (.error notFound) := by
  obtain ⟨c, hc, hidle, hfound, s, hs, hreader⟩ : ∃ c, run (Compacting.step Crc32.crc32)
      (Compacting.start freshLog tinyConfig fun _ => headerLen) (twoSegmentRun.map .log) = some c ∧
        c.log.pc = .idle ∧ (⟨2, [9]⟩, ⟨2, headerLen⟩) ∈ c.recordsFound Crc32.crc32 ∧
        ∃ s, run (Reading.step Crc32.crc32 1) (.start c)
            ([.iterate, .iterate] ++ removeFirst ++ [.iterate]) = some s ∧
          s.reader = .done (.error notFound) := by decide +kernel
  exact ⟨c, s, hc, hidle, hfound, hs, hreader⟩

end BlipMQ.Wal
