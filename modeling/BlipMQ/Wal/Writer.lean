import BlipMQ.Lib.Run
import BlipMQ.Wal.Open

/-!
# WAL — appenders and the writer task

Any number of callers run `append` and `append_durable`; each takes an id
from `next_id` and then sends its request on a bounded channel. One writer
task receives, batches, rolls segments, writes, and syncs. Every
`.await` of the source that can interleave or fail is a step of its own,
and the action says how the environment answers: which caller moves, how
much of the channel one `collect_batch` drains, and the outcome of each
file operation.

A file is the bytes written to it and the length of the prefix a
successful `flush` and `sync_data` has made durable. `write_all` is taken
by its result: what it reports as written is in the file.
-/

namespace BlipMQ.Wal

structure SegFile where
  bytes : Bytes
  synced : Nat
  deriving DecidableEq, Repr

/-- `write_all` at the cursor. Bytes rewritten behind the cursor are no
longer durable. -/
def SegFile.writeAll (f : SegFile) (pos : Nat) (data : Bytes) : SegFile :=
  ⟨writeAt f.bytes pos data, min f.synced pos⟩

/-- `flush` and `sync_data`. -/
def SegFile.syncData (f : SegFile) : SegFile := ⟨f.bytes, f.bytes.length⟩

/-- A request on its way to the writer. The sixteen header bytes the source
carries along are `recordHeader` of the record. The oneshot sender of
`append_durable` is the request itself, answered in `State.answers`. -/
structure WalWriteRequest where
  record : WalRecord
  durableAck : Bool
  deriving DecidableEq, Repr

inductive WalMessage where
  | record (request : WalWriteRequest)
  | flush
  deriving DecidableEq, Repr

/-- Where the writer task stands. `batch` and `flush` are the result of
`collect_batch`: the records, and whether a flush request ended it;
`offsets` are the index entries of a batch that has just been written. -/
inductive Pc where
  | idle
  | rollFlush (batch : List WalWriteRequest) (flush : Bool)
  | rollCreate (batch : List WalWriteRequest) (flush : Bool)
  | rollHeader (batch : List WalWriteRequest) (flush : Bool)
  | rollHeaderSync (batch : List WalWriteRequest) (flush : Bool)
  | write (batch : List WalWriteRequest) (flush : Bool)
  | index (batch : List WalWriteRequest) (offsets : List (Nat × RecordLocation)) (flush : Bool)
  | sync (flush : Bool)
  | flush
  | stopped
  deriving DecidableEq, Repr

/-- The log handle, its callers, the channel and the writer task.
`answers` and `flushAnswers` are the results sent on oneshot channels, a
flush with the records received before it. `received`, `accepted` and
`taken` are bookkeeping no step reads: the records received by the writer
and the requests accepted by the channel, both in order, and the number of
ids taken. -/
structure State where
  config : WalConfig
  dir : Dir SegFile
  index : Index
  nextId : Nat
  currentSegmentSeq : Nat
  appendCount : Nat
  bytesWritten : Nat
  building : List WalWriteRequest
  channel : List WalMessage
  fileSeq : Nat
  filePos : Nat
  currentOffset : Nat
  unflushedRecords : Nat
  pendingDurableAcks : List WalWriteRequest
  pc : Pc
  answers : List (WalWriteRequest × Except WalError Unit)
  flushAnswers : List (List WalRecord × Except WalError Unit)
  received : List WalRecord
  accepted : List WalRecord
  taken : Nat

/-- Outcome of a file operation. -/
inductive IoResult where
  | ok
  | failed (reason : String)
  deriving DecidableEq, Repr

/-- Outcome of a `write_all`; a failed one may have written some bytes. -/
inductive WriteResult where
  | ok
  | failed (written : Nat) (reason : String)
  deriving DecidableEq, Repr

inductive Action where
  /-- A caller takes an id and builds its request. -/
  | buildRequest (data : Bytes) (durable : Bool)
  /-- The caller of the `i`-th request still being built sends it. -/
  | sendRequest (i : Nat)
  /-- A caller of `flush` sends its request. -/
  | sendFlush
  /-- The writer receives a message and collects at most `more` further ones. -/
  | recv (more : Nat)
  /-- `flush_file`, in a roll, after a write, or for a flush request. -/
  | flushFile (result : IoResult)
  | createSegment (result : IoResult)
  | writeHeader (result : WriteResult)
  | syncHeader (result : IoResult)
  | writeBatch (result : WriteResult)
  /-- The batch enters the index; `elapsed` is the time since the last fsync. -/
  | indexBatch (elapsed : Nat)
  deriving DecidableEq, Repr

/-! ## The callers -/

/-- The channel is full or has no receiver any more. -/
def sendError (s : State) : Option WalError :=
  if s.pc = .stopped then some .writerStopped
  else if s.config.channelCapacity ≤ s.channel.length then
    some (.backpressure "wal channel full")
  else none

/-- `build_request`: the id is taken before the length is checked. -/
def buildRequest (s : State) (data : Bytes) (durable : Bool) : Except WalError WalWriteRequest :=
  if 2 ^ 32 ≤ data.length then .error (.corruption "record too large")
  else .ok ⟨⟨s.nextId, data⟩, durable⟩

def stepBuild (s : State) (data : Bytes) (durable : Bool) : State :=
  let s' := { s with nextId := (s.nextId + 1) % 2 ^ 64, taken := s.taken + 1 }
  match buildRequest s data durable with
  -- a refused record has used up its id
  | .error _ => s'
  | .ok request => { s' with building := s.building ++ [request] }

/-- `send_request`: on an error the request is dropped and its caller gets it. -/
def stepSend (s : State) (i : Nat) : Option State :=
  match s.building[i]? with
  | none => none
  | some request =>
    let s' := { s with building := s.building.eraseIdx i }
    match sendError s with
    | some _ => some s'
    | none => some { s' with
        channel := s.channel ++ [.record request]
        accepted := s.accepted ++ [request.record] }

/-- `flush` waits for room in the channel. -/
def stepSendFlush (s : State) : Option State :=
  match sendError s with
  | some _ => none
  | none => some { s with channel := s.channel ++ [.flush] }

/-! ## The writer -/

/-- The loop of `collect_batch`, over at most `more` messages: records until
the channel is empty or a flush request is taken. -/
def collectBatch : Nat → List WalMessage → List WalWriteRequest × Bool × List WalMessage
  | 0, channel => ([], false, channel)
  | _ + 1, [] => ([], false, [])
  | _ + 1, .flush :: channel => ([], true, channel)
  | more + 1, .record request :: channel =>
    let out := collectBatch more channel
    (request :: out.1, out.2)

def batchRecords (batch : List WalWriteRequest) : List WalRecord :=
  batch.map WalWriteRequest.record

/-- The test of `write_batch` for rolling first. -/
def State.mustRoll (s : State) (batch : List WalWriteRequest) : Bool :=
  -- a segment without records takes a batch of any size
  headerLen < s.currentOffset &&
    s.config.segmentBytes < s.currentOffset + sizeAll (batchRecords batch)

def stepRecv (s : State) (more : Nat) : Option State :=
  match s.pc, s.channel with
  | .idle, .record first :: channel =>
    let out := collectBatch more channel
    let batch := first :: out.1
    some { s with
      channel := out.2.2
      received := s.received ++ batchRecords batch
      pc := if s.mustRoll batch then .rollFlush batch out.2.1 else .write batch out.2.1 }
  | .idle, .flush :: channel => some { s with channel := channel, pc := .flush }
  | _, _ => none

/-- The task returns: the receiver and every sender it holds are dropped. -/
def State.stop (s : State) : State :=
  { s with pc := .stopped, channel := [], pendingDurableAcks := [] }

/-- `flush_file` with the answers to the pending durable appends. -/
def State.flushFile (s : State) : IoResult → State
  | .ok => { s with
      dir := s.dir.modify s.fileSeq SegFile.syncData
      answers := s.answers ++ s.pendingDurableAcks.map fun request => (request, .ok ())
      pendingDurableAcks := []
      unflushedRecords := 0 }
  | .failed reason => { s with
      answers := s.answers ++ s.pendingDurableAcks.map fun request =>
        (request, .error (.corruption ("wal fsync failed: I/O error: " ++ reason)))
      pendingDurableAcks := [] }

def IoResult.toExcept : IoResult → Except WalError Unit
  | .ok => .ok ()
  | .failed reason => .error (.io reason)

/-- What follows a batch: the flush request that ended it, or the next message. -/
def afterBatch (flush : Bool) : Pc := if flush then .flush else .idle

/-- `flush_file().await?` and then on to `pc`; its error ends the task. -/
def State.flushThen (s : State) (result : IoResult) (pc : Pc) : State :=
  match result with
  | .ok => { s.flushFile .ok with pc := pc }
  | .failed reason => (s.flushFile (.failed reason)).stop

def stepFlushFile (s : State) (result : IoResult) : Option State :=
  match s.pc with
  | .rollFlush batch flush => some (s.flushThen result (.rollCreate batch flush))
  | .sync flush => some (s.flushThen result (afterBatch flush))
  -- a failed flush request is answered with its error, and the task goes on
  | .flush => some { s.flushFile result with
      flushAnswers := s.flushAnswers ++ [(s.received, result.toExcept)]
      pc := .idle }
  | _ => none

/-- `roll_segment` creates the next file: `checked_add`, then `create_new`. -/
def stepCreate (s : State) (result : IoResult) : Option State :=
  match s.pc with
  | .rollCreate batch flush =>
    match result with
    | .failed _ => some s.stop
    | .ok =>
      -- `checked_add` and `create_new` end the task like any I/O error
      if 2 ^ 64 ≤ s.currentSegmentSeq + 1 then some s.stop
      else
        match s.dir.create (s.currentSegmentSeq + 1) ⟨[], 0⟩ with
        | none => some s.stop
        | some dir => some { s with dir := dir, pc := .rollHeader batch flush }
  | _ => none

def stepWriteHeader (s : State) (result : WriteResult) : Option State :=
  match s.pc with
  | .rollHeader batch flush =>
    let write (data : Bytes) : State :=
      { s with dir := s.dir.modify (s.currentSegmentSeq + 1) fun f => f.writeAll 0 data }
    match result with
    | .ok => some { write segmentHeader with pc := .rollHeaderSync batch flush }
    | .failed written _ => some (write (segmentHeader.take written)).stop
  | _ => none

/-- The header is durable: the writer moves to the new file. -/
def stepSyncHeader (s : State) (result : IoResult) : Option State :=
  match s.pc, result with
  | .rollHeaderSync batch flush, .ok =>
    let nextSeq := s.currentSegmentSeq + 1
    some { s with
      dir := s.dir.modify nextSeq SegFile.syncData
      fileSeq := nextSeq
      filePos := headerLen
      currentSegmentSeq := nextSeq
      currentOffset := headerLen
      pc := .write batch flush }
  | .rollHeaderSync _ _, .failed _ => some s.stop
  | _, _ => none

/-- The test of `maybe_sync`. -/
def shouldSync (config : WalConfig) (unflushedRecords elapsed : Nat) : Bool :=
  config.fsyncEveryN.any (· ≤ unflushedRecords) || config.fsyncInterval.any (· ≤ elapsed)

/-- The written batch enters the index, under its lock. -/
def stepIndexBatch (s : State) (elapsed : Nat) : Option State :=
  match s.pc with
  | .index batch offsets flush =>
    let unflushed := s.unflushedRecords + offsets.length
    let pending := s.pendingDurableAcks ++ batch.filter WalWriteRequest.durableAck
    some { s with
      index := insertAll s.index offsets
      appendCount := s.appendCount + offsets.length
      bytesWritten := s.bytesWritten + sizeAll (batchRecords batch)
      unflushedRecords := unflushed
      pendingDurableAcks := pending
      pc := if !pending.isEmpty || shouldSync s.config unflushed elapsed then .sync flush
        else afterBatch flush }
  | _ => none

section Writer

variable (crc : Bytes → UInt32)

def stepWriteBatch (s : State) (result : WriteResult) : Option State :=
  match s.pc with
  | .write batch flush =>
    let records := batchRecords batch
    let batchBuf := encodeRecords crc records
    let write (data : Bytes) : State :=
      { s with dir := s.dir.modify s.fileSeq fun f => f.writeAll s.filePos data }
    match result with
    | .failed written _ => some (write (batchBuf.take written)).stop
    | .ok => some { write batchBuf with
        filePos := s.filePos + batchBuf.length
        currentOffset := s.currentOffset + sizeAll records
        pc := .index batch (locationsFrom s.currentSegmentSeq s.currentOffset records) flush }
  | _ => none

def step (s : State) : Action → Option State
  | .buildRequest data durable => some (stepBuild s data durable)
  | .sendRequest i => stepSend s i
  | .sendFlush => stepSendFlush s
  | .recv more => stepRecv s more
  | .flushFile result => stepFlushFile s result
  | .createSegment result => stepCreate s result
  | .writeHeader result => stepWriteHeader s result
  | .syncHeader result => stepSyncHeader s result
  | .writeBatch result => stepWriteBatch crc s result
  | .indexBatch elapsed => stepIndexBatch s elapsed

end Writer

/-! ## What a step does -/

/-- The steps of callers. -/
def Action.isCaller : Action → Bool
  | .buildRequest .. => true
  | .sendRequest _ => true
  | .sendFlush => true
  | _ => false

/-- What each step can do, with the point of the writer it is taken at. -/
inductive Stepped (crc : Bytes → UInt32) (s : State) : Action → State → Prop
  /-- A caller leaves the writer and its files alone, and gives no id back. -/
  | caller {a : Action} {nextId taken : Nat} {building : List WalWriteRequest}
      {channel : List WalMessage} {accepted : List WalRecord} (isCaller : a.isCaller = true)
      (taken_le : s.taken ≤ taken) :
      Stepped crc s a { s with
        nextId := nextId, taken := taken, building := building, channel := channel,
        accepted := accepted }
  | recvBatch {more : Nat} {first : WalWriteRequest} {channel : List WalMessage}
      (pc : s.pc = .idle) (received : s.channel = .record first :: channel) :
      Stepped crc s (.recv more) { s with
        channel := (collectBatch more channel).2.2
        received := s.received ++ batchRecords (first :: (collectBatch more channel).1)
        pc := if s.mustRoll (first :: (collectBatch more channel).1)
          then .rollFlush (first :: (collectBatch more channel).1) (collectBatch more channel).2.1
          else .write (first :: (collectBatch more channel).1) (collectBatch more channel).2.1 }
  | recvFlush {more : Nat} {channel : List WalMessage} (pc : s.pc = .idle)
      (received : s.channel = .flush :: channel) :
      Stepped crc s (.recv more) { s with channel := channel, pc := .flush }
  | rollFlushed {batch : List WalWriteRequest} {flush : Bool} (result : IoResult)
      (pc : s.pc = .rollFlush batch flush) :
      Stepped crc s (.flushFile result) (s.flushThen result (.rollCreate batch flush))
  | synced {flush : Bool} (result : IoResult) (pc : s.pc = .sync flush) :
      Stepped crc s (.flushFile result) (s.flushThen result (afterBatch flush))
  | flushed (result : IoResult) (pc : s.pc = .flush) :
      Stepped crc s (.flushFile result) { s.flushFile result with
        flushAnswers := s.flushAnswers ++ [(s.received, result.toExcept)]
        pc := .idle }
  | notCreated {batch : List WalWriteRequest} {flush : Bool} {result : IoResult}
      (pc : s.pc = .rollCreate batch flush) : Stepped crc s (.createSegment result) s.stop
  | created {batch : List WalWriteRequest} {flush : Bool} {dir : Dir SegFile}
      (pc : s.pc = .rollCreate batch flush)
      (create : s.dir.create (s.currentSegmentSeq + 1) ⟨[], 0⟩ = some dir) :
      Stepped crc s (.createSegment .ok) { s with dir := dir, pc := .rollHeader batch flush }
  | headed {batch : List WalWriteRequest} {flush : Bool} (pc : s.pc = .rollHeader batch flush) :
      Stepped crc s (.writeHeader .ok) { s with
        dir := s.dir.modify (s.currentSegmentSeq + 1) fun f => f.writeAll 0 segmentHeader
        pc := .rollHeaderSync batch flush }
  | headTorn {batch : List WalWriteRequest} {flush : Bool} {written : Nat} {reason : String}
      (pc : s.pc = .rollHeader batch flush) :
      Stepped crc s (.writeHeader (.failed written reason)) (State.stop { s with
        dir := s.dir.modify (s.currentSegmentSeq + 1) fun f =>
          f.writeAll 0 (segmentHeader.take written) })
  | moved {batch : List WalWriteRequest} {flush : Bool} (pc : s.pc = .rollHeaderSync batch flush) :
      Stepped crc s (.syncHeader .ok) { s with
        dir := s.dir.modify (s.currentSegmentSeq + 1) SegFile.syncData
        fileSeq := s.currentSegmentSeq + 1
        filePos := headerLen
        currentSegmentSeq := s.currentSegmentSeq + 1
        currentOffset := headerLen
        pc := .write batch flush }
  | notMoved {batch : List WalWriteRequest} {flush : Bool} {reason : String}
      (pc : s.pc = .rollHeaderSync batch flush) :
      Stepped crc s (.syncHeader (.failed reason)) s.stop
  | wrote {batch : List WalWriteRequest} {flush : Bool} (pc : s.pc = .write batch flush) :
      Stepped crc s (.writeBatch .ok) { s with
        dir := s.dir.modify s.fileSeq fun f =>
          f.writeAll s.filePos (encodeRecords crc (batchRecords batch))
        filePos := s.filePos + (encodeRecords crc (batchRecords batch)).length
        currentOffset := s.currentOffset + sizeAll (batchRecords batch)
        pc := .index batch
          (locationsFrom s.currentSegmentSeq s.currentOffset (batchRecords batch)) flush }
  | torn {batch : List WalWriteRequest} {flush : Bool} {written : Nat} {reason : String}
      (pc : s.pc = .write batch flush) :
      Stepped crc s (.writeBatch (.failed written reason)) (State.stop { s with
        dir := s.dir.modify s.fileSeq fun f =>
          f.writeAll s.filePos ((encodeRecords crc (batchRecords batch)).take written) })
  | indexed {batch : List WalWriteRequest} {offsets : List (Nat × RecordLocation)} {flush : Bool}
      (elapsed : Nat) (pc : s.pc = .index batch offsets flush) :
      Stepped crc s (.indexBatch elapsed) { s with
        index := insertAll s.index offsets
        appendCount := s.appendCount + offsets.length
        bytesWritten := s.bytesWritten + sizeAll (batchRecords batch)
        unflushedRecords := s.unflushedRecords + offsets.length
        pendingDurableAcks := s.pendingDurableAcks ++ batch.filter WalWriteRequest.durableAck
        pc := if !(s.pendingDurableAcks ++ batch.filter WalWriteRequest.durableAck).isEmpty ||
            shouldSync s.config (s.unflushedRecords + offsets.length) elapsed then .sync flush
          else afterBatch flush }

theorem stepped_of_step {crc : Bytes → UInt32} {s s' : State} {a : Action}
    (hs : step crc s a = some s') : Stepped crc s a s' := by
  cases a with
  | buildRequest data durable =>
    cases hs
    unfold stepBuild
    dsimp only
    split <;> exact .caller rfl (Nat.le_succ _)
  | sendRequest i =>
    simp only [step, stepSend] at hs
    split at hs
    · cases hs
    · split at hs <;> cases hs <;> exact .caller rfl (Nat.le_refl _)
  | sendFlush =>
    simp only [step, stepSendFlush] at hs
    split at hs <;> cases hs
    exact .caller rfl (Nat.le_refl _)
  | recv more =>
    simp only [step, stepRecv] at hs
    split at hs <;> cases hs
    · exact .recvBatch (by assumption) (by assumption)
    · exact .recvFlush (by assumption) (by assumption)
  | flushFile result =>
    simp only [step, stepFlushFile] at hs
    split at hs <;> cases hs
    · exact .rollFlushed result (by assumption)
    · exact .synced result (by assumption)
    · exact .flushed result (by assumption)
  | createSegment result =>
    simp only [step, stepCreate] at hs
    split at hs
    · rename_i hpc
      cases result with
      | failed reason => cases hs; exact .notCreated hpc
      | ok =>
        dsimp only at hs
        split at hs
        · cases hs; exact .notCreated hpc
        · cases hcreate : s.dir.create (s.currentSegmentSeq + 1) ⟨[], 0⟩ with
          | none => rw [hcreate] at hs; cases hs; exact .notCreated hpc
          | some dir => rw [hcreate] at hs; cases hs; exact .created hpc hcreate
    · cases hs
  | writeHeader result =>
    simp only [step, stepWriteHeader] at hs
    split at hs
    · cases result <;> cases hs
      · exact .headed (by assumption)
      · exact .headTorn (by assumption)
    · cases hs
  | syncHeader result =>
    simp only [step, stepSyncHeader] at hs
    split at hs <;> cases hs
    · exact .moved (by assumption)
    · exact .notMoved (by assumption)
  | writeBatch result =>
    simp only [step, stepWriteBatch] at hs
    split at hs
    · cases result <;> cases hs
      · exact .wrote (by assumption)
      · exact .torn (by assumption)
    · cases hs
  | indexBatch elapsed =>
    simp only [step, stepIndexBatch] at hs
    split at hs <;> cases hs
    exact .indexed elapsed (by assumption)

theorem step_stopped {crc : Bytes → UInt32} {s s' : State} {a : Action}
    (hs : step crc s a = some s') (hpc : s.pc = .stopped) : s'.pc = .stopped := by
  cases stepped_of_step hs with
  | caller => exact hpc
  | _ => cases hpc.symm.trans (by assumption)

/-- The state `open_with_config` leaves behind. What a reopened file held is
still there; how much of it was durable is up to the earlier process. -/
def Opened.start (o : Opened) (config : WalConfig) (synced : Nat → Nat) : State where
  config := config
  dir := o.dir.map fun seq bytes => ⟨bytes, min (synced seq) bytes.length⟩
  index := o.index
  nextId := o.nextId
  currentSegmentSeq := o.currentSeq
  appendCount := 0
  bytesWritten := 0
  building := []
  channel := []
  fileSeq := o.currentSeq
  filePos := o.currentOffset
  currentOffset := o.currentOffset
  unflushedRecords := 0
  pendingDurableAcks := []
  pc := .idle
  answers := []
  flushAnswers := []
  received := []
  accepted := []
  taken := 0

/-- What a reader of the directory sees while the process runs. -/
def State.contents (s : State) : Dir Bytes := s.dir.map fun _ f => f.bytes

end BlipMQ.Wal
