import StrataDB.Index.Hnsw
import StrataDB.Query.Mask
import StrataDB.Storage.Backend
import StrataDB.Txn.Batch

/-! Snapshots (`txn/src/snapshot.rs`): an immutable view of one version, and how
its rows are read back from the store. -/

namespace StrataDB.Txn

open Lib Arrow Index Storage Query

/-- What the database is parametric in: the arrow kernels, what a manifest's JSON can
carry, and the distances and levels that segments are built with. -/
structure Platform where
  kernels : Kernels
  format : Format
  builder : Builder

/-- The in-memory state of one version. The tombstone set holds the manifest's
tombstones; each index part is a segment with its zone map. -/
structure Snapshot where
  version : ℕ
  schema : Schema
  manifest : Manifest
  index : List (SegmentPart Stats)
  tombstones : List ℕ
  deriving DecidableEq

namespace Snapshot

/-- The file's range covers the row. -/
def coversRow (entry : DataFileEntry) (rowId : ℕ) : Bool :=
  match entry.rowIdRange with
  | some (first, last) => first ≤ rowId && rowId ≤ last
  | none => false

/-- `owns_row`: some data file's range covers the row. -/
def ownsRow (s : Snapshot) (rowId : ℕ) : Bool :=
  s.manifest.dataFiles.any (coversRow · rowId)

/-- `is_visible`: not tombstoned. -/
def isVisible (s : Snapshot) (rowId : ℕ) : Bool := !s.tombstones.contains rowId

def ownsLiveRow (s : Snapshot) (rowId : ℕ) : Bool := s.ownsRow rowId && s.isVisible rowId

/-- `filter_tombstoned_rows`. -/
def filterTombstonedRows (s : Snapshot) (batch : RecordBatch) : Except TxnError RecordBatch := do
  if s.tombstones.isEmpty then return batch
  let index ← orElse (batch.schema.indexOf rowIdColumn) (missingField rowIdColumn)
  ensure (batch.schema.typeAt index = .uint64)
    (.arrow (.castError "_row_id column must be UInt64"))
  return batch.filter fun r => !s.tombstones.contains (Cell.toRowId (Row.cell r index))

end Snapshot

/-- `read_batch_with`. -/
def readBatch (store : Store) (name : ObjectName) : Except TxnError RecordBatch :=
  match store.get (.data name) with
  | some (.rows batch) => .ok batch
  | some _ => .error (.storage (.corruptDataFile (.data name) "not an Arrow IPC file"))
  | none => .error (.storage (.notFound (.data name)))

/-- The named columns of a batch, in the order they are asked for. -/
def projectColumns (batch : RecordBatch) (columns : List String) :
    Except TxnError RecordBatch := do
  let indices ← columns.mapM fun name => orElse (batch.schema.indexOf name) (missingField name)
  lift .arrow (RecordBatch.tryNewWithOptions
    ⟨indices.filterMap (batch.schema.fields[·]?), batch.schema.metadata⟩
    (batch.rows.map fun r => indices.map (Row.cell r)))

/-- `read_batch_columns_with`: only the named columns are decoded. -/
def readBatchColumns (store : Store) (name : ObjectName) (columns : List String) :
    Except TxnError RecordBatch := do
  projectColumns (← readBatch store name) columns

namespace Snapshot

/-- One file of `read_surviving_files`. -/
def readSurvivingFile {α : Type} (s : Snapshot) (store : Store) (columns : Option (List String))
    (process : RecordBatch → Except TxnError α) (entry : DataFileEntry) : Except TxnError α := do
  let batch ← match columns with
    | some names => readBatchColumns store entry.name names
    | none => readBatch store entry.name
  process (← s.filterTombstonedRows batch)

/-- `read_surviving_files`: skip the files the predicate rules out, read the
others in manifest order without their tombstoned rows. -/
def readSurvivingFiles {α : Type} (s : Snapshot) (store : Store) (predicate : Option Predicate)
    (columns : Option (List String)) (process : RecordBatch → Except TxnError α) :
    Except TxnError (List α) :=
  (s.manifest.dataFiles.filter fun entry => predicate.all (shouldScanFile entry.stats)).mapM
    (s.readSurvivingFile store columns process)

/-- `read_surviving_physical_batches`. -/
def readSurvivingPhysicalBatches (s : Snapshot) (store : Store) :
    Except TxnError (List RecordBatch) :=
  s.readSurvivingFiles store none none .ok

/-- The field a projection may ask for under a name. -/
def projectionField (s : Snapshot) (field : Field) : Except TxnError Field :=
  if field.name = rowIdColumn then .ok rowIdField
  else if field.name = timestampColumn then .ok timestampField
  else orElse (s.schema.fieldWithName field.name)
    (.batchSchemaMismatch s!"owned field named {field.name}" (fieldDescription field))

/-- `validate_projection_schema`. -/
def validateProjectionSchema (s : Snapshot) (requested : Schema) : Except TxnError Unit := do
  ensure (requested.metadata = s.schema.metadata)
    (.batchSchemaMismatch "owned schema metadata" "requested schema metadata")
  requested.fields.forM fun field => do
    let expected ← s.projectionField field
    ensure (field = expected)
      (.batchSchemaMismatch (fieldDescription expected) (fieldDescription field))

/-- `Snapshot::scan`: every live row under the requested schema, as one batch. -/
def scan (P : Platform) (s : Snapshot) (store : Store) (schema : Schema) :
    Except TxnError RecordBatch := do
  s.validateProjectionSchema schema
  let batches ← s.readSurvivingFiles store none none fun batch =>
    castBatchToSchema P.kernels batch schema
  lift .arrow (RecordBatch.concat schema batches)

/-- `Snapshot::scan_with_predicate`: skip what the predicate rules out, filter
the rest. -/
def scanWithPredicate (P : Platform) (s : Snapshot) (store : Store) (schema : Schema)
    (predicate : Predicate) : Except TxnError RecordBatch := do
  s.validateProjectionSchema schema
  let batches ← s.readSurvivingFiles store (some predicate) none fun batch => do
    let cast ← castBatchToSchema P.kernels batch schema
    lift .arrow (filter cast predicate)
  lift .arrow (RecordBatch.concat schema batches)

end Snapshot

/-- The owned schema with both hidden columns: a scan under it shows everything
a row carries. -/
def fullSchema (schema : Schema) : Schema :=
  ⟨schema.fields ++ [rowIdField, timestampField], schema.metadata⟩

end StrataDB.Txn
