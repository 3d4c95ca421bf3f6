import StrataDB.Txn.Lifecycle

/-! Compaction (`Dataset::compact_inner`): the live rows of the current snapshot
are rewritten as one file per run of consecutive row ids and one segment, the
result is published, and the objects that no held version lists are deleted. -/

namespace StrataDB.Txn

open Lib Arrow Index Storage

/-- `x.saturating_add(1)` on row ids. -/
def saturatingSucc (x : ℕ) : ℕ := min (x + 1) (u64Bound - 1)

/-- The nested loops that split the rows into runs, as one pass: a run is a start
and a length, and the next id either continues it or opens another. -/
def splitRuns : ℕ → ℕ → ℕ → List ℕ → List (ℕ × ℕ)
  | start, len, _, [] => [(start, len)]
  | start, len, last, rowId :: rest =>
    if rowId = saturatingSucc last then splitRuns start (len + 1) rowId rest
    else (start, len) :: splitRuns (start + len) 1 rowId rest

def runsOf : List ℕ → List (ℕ × ℕ)
  | [] => []
  | rowId :: rest => splitRuns 0 1 rowId rest

/-- The rows of one stored batch with their hidden columns set apart. -/
def detachHidden (P : Platform) (schema : Schema) (physical : RecordBatch) :
    Except TxnError (RecordBatch × List Cell × List Cell) := do
  let found := schemaDescription physical.schema
  let rowIds ← typedColumn physical rowIdColumn .uint64 (missingField rowIdColumn)
    (.batchSchemaMismatch "physical _row_id UInt64" found)
  let timestamps ← typedColumn physical timestampColumn .int64 (missingField timestampColumn)
    (.batchSchemaMismatch "physical _timestamp Int64" found)
  let logical ← castBatchToSchema P.kernels physical schema
  return (logical, rowIds.map fun c => .uint64 (Cell.toRowId c),
    timestamps.map fun c => .int64 (Cell.toTimestamp c))

/-- The live rows as one logical batch, and as the batch to be stored. The stored
schema is made of fields only. -/
def compactedBatches (P : Platform) (schema : Schema) (physical : List RecordBatch) :
    Except TxnError (RecordBatch × RecordBatch) := do
  let parts ← physical.mapM (detachHidden P schema)
  let logical ← lift .arrow (RecordBatch.concat schema (parts.map Prod.fst))
  let encoded ← encodeUserColumns P.kernels logical
  let rowIds := parts.flatMap fun part => part.2.1
  let timestamps := parts.flatMap fun part => part.2.2
  let stored ← lift .arrow (RecordBatch.tryNew
    ⟨encoded.schema.fields ++ [rowIdField, timestampField], []⟩
    (List.zipWith (fun r hidden => r ++ [hidden.1, hidden.2]) encoded.rows
      (rowIds.zip timestamps)))
  return (logical, stored)

/-- Where the file-system calls of a compaction fail, if they do. -/
structure CompactionFaults where
  createDirFails : Bool := false
  files : ℕ → FileInput := fun _ => {}
  segment : Fault := .none
  syncDirFails : Bool := false
  publication : Fault := .none
  deletes : ℕ → Fault := fun _ => .none

/-- No call fails; the slots of each file are given. -/
def CompactionFaults.free (slots : ℕ → Slots) : CompactionFaults :=
  { files := fun i => { slots := slots i } }

/-- The entry of one run. -/
def runEntry (P : Platform) (attempt : ℕ) (logical stored : RecordBatch) (rowIds : List ℕ)
    (inputs : ℕ → FileInput) (p : (ℕ × ℕ) × ℕ) : DataFileEntry where
  name := .rowFile attempt p.2
  byteLen := P.kernels.ipcByteLen (stored.slice p.1.1 p.1.2)
  crc32c := P.kernels.ipcCrc32c (stored.slice p.1.1 p.1.2)
  rowCount := p.1.2
  rowIdRange := some (rowIds.getD p.1.1 0, rowIds.getD (p.1.1 + p.1.2 - 1) 0)
  stats := computeStats (inputs p.2).slots (logical.slice p.1.1 p.1.2)

/-- One run written as a row file. -/
def writeRun (P : Platform) (attempt : ℕ) (logical stored : RecordBatch) (rowIds : List ℕ)
    (inputs : ℕ → FileInput) (p : (ℕ × ℕ) × ℕ) : Action DataFileEntry := do
  putObject (.data (.rowFile attempt p.2)) (.rows (stored.slice p.1.1 p.1.2)) (inputs p.2).fault
  return runEntry P attempt logical stored rowIds inputs p

/-- The files of a compaction, with the vectors to index and their zone map. -/
def rewriteRows (P : Platform) (source : Snapshot) (attempt : ℕ) (inputs : ℕ → FileInput)
    (physical : List RecordBatch) : Action WrittenFiles := do
  if physical = [] then return ⟨[], [], ∅⟩
  let (logical, stored) ← Effect.lift (compactedBatches P source.schema physical)
  let cells ← Effect.lift (typedColumn stored rowIdColumn .uint64 (missingField rowIdColumn)
    (.batchSchemaMismatch "physical _row_id UInt64" (schemaDescription stored.schema)))
  let rowIds := cells.map Cell.toRowId
  let files ← Effect.forEach (writeRun P attempt logical stored rowIds inputs)
    (runsOf rowIds).zipIdx
  let inserts ← Effect.lift (buildVectorInsertsWithPhysicalRowIds stored)
  return ⟨files, inserts, zoneMapOf (source.manifest.dataFiles.map DataFileEntry.stats)⟩

structure CompactionReport where
  sourceVersion : ℕ
  publishedVersion : ℕ
  rowFilesWritten : ℕ
  segmentsWritten : ℕ
  objectsDeleted : ℕ
  bytesDeleted : ℕ
  deriving DecidableEq

/-- The snapshot a compaction publishes. -/
def compactedSnapshot (d : Dataset) (source : Snapshot) (version : ℕ) (committedAtUs : ℤ)
    (files : List DataFileEntry) (segment : Option PublishedSegment) : Snapshot where
  version := version
  schema := source.schema
  manifest := { source.manifest with
    version
    dataFiles := files
    segments := (segment.map PublishedSegment.entry).toList
    tombstones := []
    nextAttemptId := d.writeAttemptCounter
    nextRowId := d.nextRowId
    committedAtUs }
  index := (segment.map fun p => (p.reader, p.entry.zoneMap)).toList
  tombstones := []

/-- `compact_inner` up to the candidate snapshot and its report. -/
def compactionCandidate (P : Platform) (clock : Option ℕ) (faults : CompactionFaults) :
    Action (Snapshot × CompactionReport) := do
  let start ← Effect.reads id
  let source := start.current
  let surviving ← Effect.lift (source.readSurvivingPhysicalBatches start.store)
  let physical := surviving.filter fun batch => batch.numRows ≠ 0
  let version ← Effect.lift (checkedAdd source.version 1 s!"version {source.version} + 1")
  let attempt ← nextAttempt
  localCall faults.createDirFails "create_dir_all failed"
  let written ← rewriteRows P source attempt faults.files physical
  let segment ← buildAndWriteSegment P attempt written.inserts written.zoneMap faults.segment
  let d ← Effect.reads id
  let committedAtUs ← issueTimestamp clock
  localCall faults.syncDirFails "directory sync failed"
  let snapshot := compactedSnapshot d source version committedAtUs written.files segment
  return (snapshot, {
    sourceVersion := source.version
    publishedVersion := version
    rowFilesWritten := snapshot.manifest.dataFiles.length
    segmentsWritten := snapshot.manifest.segments.length
    objectsDeleted := 0
    bytesDeleted := 0 })

/-- `compact_inner` up to the visible publication. -/
def publishCompaction (P : Platform) (clock : Option ℕ) (faults : CompactionFaults) :
    Action CompactionReport := do
  let candidate ← compactionCandidate P clock faults
  let indeterminate ← publishCandidateManifest P candidate.1.manifest faults.publication
  completeVisiblePublication candidate.1 [] indeterminate candidate.2

/-- What reclamation does with one object that some manifest lists: nothing if it
is gone already or a held version lists it, but a held version's object must not
be gone. -/
def reclaimCandidate (P : Platform) (store : Store) (kept : List ObjectName)
    (name : ObjectName) : Option Candidate :=
  if name ∈ store.dataObjects then
    if name ∈ kept then none
    else some (.ok (.data name, sizeOf P store (.data name)))
  else if name ∈ kept then
    some (.error (.storage (.corruptManifest (.data name)
      "protected manifest-listed data object is missing from inventory")))
  else none

/-- The reclamation plan of `compact_inner`: validate every held version under
the current logical schema, then consider each object that a manifest still
lists. -/
def reclaimPlan (P : Platform) (logical : Schema) (live : List ℕ) (store : Store) :
    Except TxnError (List Candidate) := do
  let kept ← protectVersions P store logical live
  let listed ← reachableFrom P store (listedVersions store)
  return listed.dedup.filterMap (reclaimCandidate P store kept)

/-- `Dataset::compact` without interleaving, while `held` snapshots are live. -/
def compact (P : Platform) (retainSnapshots : Bool) (held : List Snapshot) (clock : Option ℕ)
    (faults : CompactionFaults) : Action CompactionReport := do
  Effect.lift (ensure (retainSnapshots = true) .invalidCompactionPolicy)
  let report ← publishCompaction P clock faults
  let d ← Effect.reads id
  let candidates ← Effect.lift
    (reclaimPlan P d.current.schema (liveVersions d.current held) d.store)
  let (objectsDeleted, bytesDeleted) ← deleteCandidates faults.deletes 0 0 0 candidates
  return { report with objectsDeleted, bytesDeleted }

end StrataDB.Txn
