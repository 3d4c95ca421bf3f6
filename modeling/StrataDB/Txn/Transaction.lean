import StrataDB.Txn.Dataset

/-! Transactions (`Transaction` in `txn/src/dataset.rs`): staging against the
snapshot taken at `begin`, the preparation outside the publication lock, and the
publication inside it. -/

namespace StrataDB.Txn

open Lib Arrow Index Storage

/-- A transaction before its commit. -/
structure Transaction where
  base : Snapshot
  schema : Schema
  pending : List RecordBatch
  /-- The replacements by the row they replace. -/
  pendingReplacements : List (ℕ × RecordBatch)
  pendingTombstones : List ℕ
  writeSet : List ℕ
  deriving DecidableEq

namespace Transaction

/-- A transaction on a snapshot with nothing staged. -/
def onBase (base : Snapshot) : Transaction where
  base
  schema := base.schema
  pending := []
  pendingReplacements := []
  pendingTombstones := []
  writeSet := []

/-- `Dataset::begin`. -/
def begin (d : Dataset) : Transaction := onBase d.current

def validateBatch (t : Transaction) (batch : RecordBatch) : Except TxnError Unit :=
  let expected := schemaDescription t.schema
  let actual := schemaDescription batch.schema
  ensure (batch.schema = t.schema)
    (.batchSchemaMismatch s!"dataset {expected}" s!"batch {actual}")

/-- `validate_target`: a live row of the base snapshot, targeted once. -/
def validateTarget (t : Transaction) (rowId : ℕ) : Except TxnError Unit := do
  ensure (rowId ∉ t.pendingTombstones) (.duplicateTarget rowId)
  ensure (t.base.ownsRow rowId = true) (.rowNotFound rowId)
  ensure (t.base.isVisible rowId = true) (.rowNotLive rowId)

def insert (t : Transaction) (batch : RecordBatch) : Except TxnError Transaction := do
  t.validateBatch batch
  return { t with pending := t.pending ++ [batch] }

def delete (t : Transaction) (rowId : ℕ) : Except TxnError Transaction := do
  t.validateTarget rowId
  return { t with
    pendingTombstones := t.pendingTombstones ++ [rowId]
    writeSet := t.writeSet ++ [rowId] }

def update (t : Transaction) (rowId : ℕ) (batch : RecordBatch) :
    Except TxnError Transaction := do
  t.validateBatch batch
  ensure (batch.numRows = 1) (.invalidUpdateShape batch.numRows)
  t.validateTarget rowId
  return { t with
    pendingTombstones := t.pendingTombstones ++ [rowId]
    writeSet := t.writeSet ++ [rowId]
    pendingReplacements := (rowId, batch) :: t.pendingReplacements.filter fun p => p.1 ≠ rowId
    pending := t.pending ++ [batch] }

/-- A staging call that a caller makes. -/
inductive Call
  | insert (batch : RecordBatch)
  | delete (rowId : ℕ)
  | update (rowId : ℕ) (batch : RecordBatch)

/-- The call that stages one change. -/
def stage (t : Transaction) : Call → Except TxnError Transaction
  | .insert batch => t.insert batch
  | .delete rowId => t.delete rowId
  | .update rowId batch => t.update rowId batch

/-- The calls have all been accepted, one after the other. -/
def StagedBy (t : Transaction) (calls : List Call) : Prop :=
  calls.foldlM stage (onBase t.base) = .ok t

end Transaction

/-! ### Preparation -/

/-- What is given with one row file: whether its write fails, and the floats in the
slots of its nulls. -/
structure FileInput where
  fault : Fault := .none
  slots : Slots := fun _ _ => Binary.zero 11 52

/-- Where the file-system calls of a preparation fail, if they do. -/
structure WriteFaults where
  createDirFails : Bool := false
  files : ℕ → FileInput := fun _ => {}
  segment : Fault := .none
  syncDirFails : Bool := false

/-- The batch as it is stored: user columns encoded, hidden columns appended. -/
def physicalBatch (P : Platform) (batch : RecordBatch) (rowIdBase : ℕ) (ts : ℤ) :
    Except TxnError RecordBatch := do
  let encoded ← encodeUserColumns P.kernels batch
  let withRowId ← appendRowIdColumn encoded rowIdBase batch.numRows
  appendTimestampColumn withRowId ts batch.numRows

/-- The statistics of a committed file: those of the batch, and its timestamp. -/
def committedStats (slots : Slots) (batch : RecordBatch) (ts : ℤ) : Stats :=
  (computeStats slots batch).insert timestampColumn ⟨.int64 ts, .int64 ts⟩

/-- The inclusive range of `count` ids from `first`. -/
def rowIdRangeOf (first count : ℕ) : Option (ℕ × ℕ) :=
  if count = 0 then none else some (first, first + count - 1)

/-- One round of `write_pending_batches`. -/
def writePendingBatch (P : Platform) (attempt : ℕ) (ts : ℤ) (input : FileInput) (i rowIdBase : ℕ)
    (batch : RecordBatch) : Action (DataFileEntry × List VectorInsert) := do
  let inserts ← Effect.lift (buildVectorInserts batch rowIdBase)
  let physical ← Effect.lift (physicalBatch P batch rowIdBase ts)
  let name := ObjectName.rowFile attempt i
  putObject (.data name) (.rows physical) input.fault
  return ({
    name
    byteLen := P.kernels.ipcByteLen physical
    crc32c := P.kernels.ipcCrc32c physical
    rowCount := batch.numRows
    rowIdRange := rowIdRangeOf rowIdBase batch.numRows
    stats := committedStats input.slots batch ts }, inserts)

/-- The loop of `write_pending_batches`: what each batch wrote, and the id after
the last row. -/
def writeBatchesFrom (P : Platform) (attempt : ℕ) (ts : ℤ) (inputs : ℕ → FileInput) :
    ℕ → ℕ → List RecordBatch → Action (List (DataFileEntry × List VectorInsert) × ℕ)
  | _, rowIdBase, [] => pure ([], rowIdBase)
  | i, rowIdBase, batch :: rest => do
    let written ← writePendingBatch P attempt ts (inputs i) i rowIdBase batch
    let (others, last) ← writeBatchesFrom P attempt ts inputs (i + 1)
      (rowIdBase + batch.numRows) rest
    return (written :: others, last)

/-- What the data files of a preparation hand to the segment build. -/
structure WrittenFiles where
  files : List DataFileEntry
  inserts : List VectorInsert
  zoneMap : Stats
  deriving DecidableEq

/-- `write_pending_batches`. -/
def writePendingBatches (P : Platform) (pending : List RecordBatch) (attempt : ℕ)
    (range : RowIdRange) (ts : ℤ) (inputs : ℕ → FileInput) : Action WrittenFiles := do
  let (written, last) ← writeBatchesFrom P attempt ts inputs 0 range.base pending
  let claimedEnd := range.base + range.len
  Effect.lift (ensure (last = claimedEnd) (.rowIdRangeMismatch claimedEnd last))
  let files := written.map Prod.fst
  return ⟨files, written.flatMap Prod.snd, zoneMapOf (files.map DataFileEntry.stats)⟩

/-- A segment that is written but listed by no manifest yet. -/
structure PublishedSegment where
  entry : SegmentEntry
  reader : Segment
  deriving DecidableEq

/-- `build_and_write_segment`: none for a commit without vectors. -/
def buildAndWriteSegment (P : Platform) (attempt : ℕ) (inserts : List VectorInsert)
    (zoneMap : Stats) (fault : Fault) : Action (Option PublishedSegment) := do
  if inserts = [] then return none
  let rowIds := inserts.map VectorInsert.rowId
  let vectors := inserts.map VectorInsert.vector
  let graph ← Effect.lift (lift .index (P.builder.build vectors))
  let segment ← Effect.lift (lift .index (encodeSegment rowIds vectors graph))
  let name := ObjectName.segment attempt
  putObject (.data name) (.segment segment) fault
  return some {
    entry := {
      name
      formatVersion := segmentFormatVersion
      vectorCount := inserts.length
      dimension := segment.dimension
      rowIdMin := rowIds.headD 0
      rowIdMax := rowIds.getLastD 0
      byteLen := segment.byteLen
      zoneMap }
    reader := segment }

/-- The checked sum of the staged row counts. -/
def totalRows : ℕ → List RecordBatch → Except TxnError ℕ
  | total, [] => .ok total
  | total, batch :: rest => do
    let total ← checkedAdd total batch.numRows s!"pending rows {total} + {batch.numRows}"
    totalRows total rest

/-- First part of `write_phase`: refuse hidden names and take an attempt id. -/
def takeAttempt (t : Transaction) (faults : WriteFaults) : Action ℕ := do
  Effect.lift (t.pending.forM fun batch => hiddenColumns.forM fun name =>
    ensure (batch.schema.indexOf name = none) (.reservedColumnName name))
  localCall faults.createDirFails "create_dir_all failed"
  nextAttempt

/-- Second part: one claim for the rows of all batches. -/
def claimForPending (t : Transaction) (faults : ℕ → ReservationFaults) : Action RowIdRange := do
  let total ← Effect.lift (totalRows 0 t.pending)
  claimRowIds total faults

/-- Last part: the dimension check against the current snapshot, the segment,
and the directory sync. -/
def indexWritten (P : Platform) (attempt : ℕ) (written : WrittenFiles) (faults : WriteFaults) :
    Action (Option PublishedSegment) := do
  let established ← Effect.reads fun d : Dataset => establishedDimension d.current.index
  Effect.lift (validateVectorDimensions written.inserts established)
  let segment ← buildAndWriteSegment P attempt written.inserts written.zoneMap faults.segment
  localCall faults.syncDirFails "directory sync failed"
  return segment

/-! ### Publication -/

/-- Add the staged tombstones to the set and to the manifest's list, skipping
those already in the set. -/
def layerTombstones (pending : List ℕ) (set listed : List ℕ) : List ℕ × List ℕ :=
  pending.foldl (fun (set, listed) rowId =>
    if set.contains rowId then (set, listed) else (set ++ [rowId], listed ++ [rowId]))
    (set, listed)

/-- The checks of `commit_inner` under the lock, against the latest snapshot. -/
def checkCommit (log : CommitLog) (latest : Snapshot) (t : Transaction) :
    Except TxnError Unit := do
  ensure (latest.manifest.effectiveSchemaVersion = t.base.manifest.effectiveSchemaVersion)
    (.storage (.schemaVersionChanged t.base.manifest.effectiveSchemaVersion
      latest.manifest.effectiveSchemaVersion))
  match log.conflictsWith t.base.version latest.version t.writeSet with
  | .clean => pure ()
  | .conflict contested => .error (.conflict contested)
  | .insufficientHistory oldest =>
    .error (.insufficientHistory t.base.version oldest latest.version)
  t.writeSet.forM fun rowId =>
    ensure (latest.ownsLiveRow rowId = true) (.conflict [rowId])

/-- `segment_dimension` against the established one; the first segment may have
any dimension. -/
def checkSegmentDimension (latest : Snapshot) : Option PublishedSegment → Except TxnError Unit
  | none => .ok ()
  | some published =>
    let established := establishedDimension latest.index
    ensure (established = 0 ∨ published.entry.dimension = established)
      (.index (.dimensionMismatch published.entry.dimension established))

/-- The snapshot a commit publishes on top of the latest one. -/
def committedSnapshot (d : Dataset) (t : Transaction) (ts : ℤ) (version : ℕ)
    (files : List DataFileEntry) (segment : Option PublishedSegment) : Snapshot :=
  let latest := d.current
  let (tombstones, listed) := layerTombstones t.pendingTombstones latest.tombstones
    latest.manifest.tombstones
  { version
    schema := t.schema
    manifest := { latest.manifest with
      version
      dataFiles := latest.manifest.dataFiles ++ files
      segments := latest.manifest.segments ++ (segment.map PublishedSegment.entry).toList
      nextRowId := d.nextRowId
      nextAttemptId := d.writeAttemptCounter
      commitTimeHighWater := max latest.manifest.commitTimeHighWater ts
      committedAtUs := ts
      tombstones := listed }
    index := latest.index ++ (segment.map fun p => (p.reader, p.entry.zoneMap)).toList
    tombstones }

/-- The critical section of `commit_inner`. -/
def publishCommit (P : Platform) (t : Transaction) (ts : ℤ) (files : List DataFileEntry)
    (segment : Option PublishedSegment) (fault : Fault) : Action Unit := do
  let d ← Effect.reads id
  Effect.lift (checkCommit d.log d.current t)
  let version ← Effect.lift (checkedAdd d.current.version 1 s!"version {d.current.version} + 1")
  Effect.lift (checkSegmentDimension d.current segment)
  let snapshot := committedSnapshot d t ts version files segment
  let indeterminate ← publishCandidateManifest P snapshot.manifest fault
  completeVisiblePublication snapshot t.writeSet indeterminate ()

end StrataDB.Txn
