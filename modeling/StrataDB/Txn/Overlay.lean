import StrataDB.Txn.ScanQuery
import StrataDB.Txn.Transaction

/-! What a transaction reads (`overlay_batches` in `txn/src/dataset.rs`): the live rows
of its base snapshot without the rows it has staged for removal, file by file, followed
by the batches it has staged. -/

namespace StrataDB.Txn

open Lib Arrow Index Storage Query

/-- `filter_row_ids`. -/
def filterRowIds (batch : RecordBatch) (excluded : List ℕ) : Except TxnError RecordBatch := do
  if excluded.isEmpty then return batch
  let index ← orElse (batch.schema.indexOf rowIdColumn) (missingField rowIdColumn)
  ensure (batch.schema.typeAt index = .uint64) (queryCastError rowIdColumn "UInt64")
  return batch.filter fun r => !excluded.contains (Cell.toRowId (Row.cell r index))

/-- `visible_logical_batches_excluding`. -/
def Snapshot.visibleLogicalBatchesExcluding (P : Platform) (s : Snapshot) (store : Store)
    (excluded : List ℕ) : Except TxnError (List RecordBatch) := do
  let batches ← s.readSurvivingPhysicalBatches store
  batches.mapM fun batch => do
    let batch ← filterRowIds batch excluded
    castBatchToSchema P.kernels batch s.schema

/-- `Transaction::overlay_batches`. -/
def Transaction.overlayBatches (P : Platform) (t : Transaction) (store : Store) :
    Except TxnError (List RecordBatch) := do
  let batches ← t.base.visibleLogicalBatchesExcluding P store t.pendingTombstones
  return batches ++ t.pending

/-- `Snapshot::scan_query_overlay`. -/
def Snapshot.scanQueryOverlay (s : Snapshot) (request : ScanRequest) (batches : List RecordBatch) :
    Except QueryError ScanResult := do
  let schema ← s.querySchema
  let projection ← schema.validateScan request
  let rows ← engine (batches.mapM fun batch => do
    let filtered ← filterBatch batch request.filter
    projectedRows filtered projection)
  return ⟨projection, rows.flatten⟩

/-- `Transaction::scan_query`. -/
def Transaction.scanQuery (P : Platform) (t : Transaction) (store : Store)
    (request : ScanRequest) : Except QueryError ScanResult := do
  let batches ← engine (t.overlayBatches P store)
  t.base.scanQueryOverlay request batches

/-- What a lookup shows of a row with a staged replacement: the replacement's only row. -/
def replacementOutcome (projection : List String) (batch : RecordBatch) :
    Except TxnError RowLookupOutcome := do
  return .live (← projectedRow batch.schema projection (batch.rows.headD []))

/-- `Transaction::lookup_row`. -/
def Transaction.lookupRow (P : Platform) (t : Transaction) (store : Store)
    (request : RowLookupRequest) : Except QueryError RowLookupResult := do
  let schema ← t.base.querySchema
  let projection ← schema.validateRowLookup request
  if request.rowId ∉ t.pendingTombstones then t.base.lookupRow P store request
  else
    let outcome ← match t.pendingReplacements.lookup request.rowId with
      | some batch => engine (replacementOutcome projection batch)
      | none => .ok .tombstoned
    return ⟨request.rowId, projection, outcome⟩

end StrataDB.Txn
