import StrataDB.Lib.Effect
import StrataDB.Query.Plan
import StrataDB.Txn.GroupBy
import StrataDB.Txn.VectorQuery

/-! Explained queries (`plan_query` and `plan_observations` in `txn/src/snapshot.rs`, and the
plans of a transaction in `txn/src/dataset.rs`), and the executions of the same queries with
a record of the files and segments they read. -/

namespace StrataDB.Txn

open Lib Arrow Index Storage Query

/-! ### Plans -/

/-- A failed validation, or a pipeline without a plan (`QueryExecutionError::Planner`). -/
inductive ExplainError
  | query (error : QueryError)
  | planner (error : PlanError)
  deriving DecidableEq

/-- `ExplainResult`. -/
structure ExplainResult where
  totalFiles : ℕ
  scanned : List ObjectName
  skipped : List ObjectName
  segmentsTotal : ℕ
  segmentsScanned : List ObjectName
  segmentsSkipped : List ObjectName
  deriving DecidableEq

/-- The operators around a result operator. -/
def logicalOperators (filter : Option FilterExpression) (result : LogicalOperator) :
    List LogicalOperator :=
  [.source] ++
    (filter.map fun f => .predicate (filterExpressionPruningPredicate f).isSome).toList ++
    [result, .materialize]

namespace Snapshot

variable (s : Snapshot)

/-- `Snapshot::explain`. -/
def explain (predicate : Predicate) : ExplainResult where
  totalFiles := s.manifest.dataFiles.length
  scanned := (s.manifest.dataFiles.filter fun e => shouldScanFile e.stats predicate).map
    DataFileEntry.name
  skipped := (s.manifest.dataFiles.filter fun e => !shouldScanFile e.stats predicate).map
    DataFileEntry.name
  segmentsTotal := s.manifest.segments.length
  segmentsScanned := (s.manifest.segments.filter fun e => shouldScanFile e.zoneMap predicate).map
    SegmentEntry.name
  segmentsSkipped := (s.manifest.segments.filter fun e => !shouldScanFile e.zoneMap predicate).map
    SegmentEntry.name

/-- `plan_observations`. -/
def planObservations (operators : List LogicalOperator) (filter : Option FilterExpression)
    (transactionOverlay : Bool) : PlanObservations :=
  let pruning := (filter.bind filterExpressionPruningPredicate).map s.explain
  let dataFilesTotal := s.manifest.dataFiles.length
  let indexSegmentsTotal := s.manifest.segments.length
  let dataFileSelection :=
    pruning.elim (dataFilesTotal, 0) fun e => (e.scanned.length, e.skipped.length)
  let indexSegmentSelection :=
    pruning.elim (indexSegmentsTotal, 0) fun e =>
      (e.segmentsScanned.length, e.segmentsSkipped.length)
  let (files, segments) : (ℕ × ℕ) × (ℕ × ℕ) :=
    match resultOperator operators with
    | some (.projection _) | some (.grouping _ _) => (dataFileSelection, (0, 0))
    | some (.vectorSearch _ _ hasFilter _) =>
      (if hasFilter then dataFileSelection else (0, 0), indexSegmentSelection)
    | _ => ((0, 0), (0, 0))
  { dataFilesTotal
    dataFilesScanned := files.1
    dataFilesPruned := files.2
    indexSegmentsTotal
    indexSegmentsScanned := segments.1
    indexSegmentsPruned := segments.2
    transactionOverlay }

/-- `plan_query`. -/
def planQuery (operators : List LogicalOperator) (filter : Option FilterExpression)
    (transactionOverlay : Bool) : Except ExplainError PhysicalPlan := do
  let logical ← (LogicalPlan.new operators).mapError .planner
  let observations := s.planObservations logical.operators filter transactionOverlay
  (plan logical observations).mapError .planner

/-- `explain_scan_query_with_overlay`. -/
def explainScanQueryWithOverlay (request : ScanRequest) (transactionOverlay : Bool) :
    Except ExplainError PhysicalPlan := do
  let projection ← (do let schema ← s.querySchema; schema.validateScan request).mapError .query
  s.planQuery (logicalOperators request.filter (.projection projection)) request.filter
    transactionOverlay

def explainScanQuery (request : ScanRequest) : Except ExplainError PhysicalPlan :=
  s.explainScanQueryWithOverlay request false

/-- `explain_group_by_query_with_overlay`. -/
def explainGroupByQueryWithOverlay (request : GroupByRequest) (transactionOverlay : Bool) :
    Except ExplainError PhysicalPlan := do
  let _ ← (do let schema ← s.querySchema; schema.validateGroupBy request).mapError .query
  s.planQuery
    (logicalOperators request.filter (.grouping request.groupBy request.aggregates.length))
    request.filter transactionOverlay

def explainGroupByQuery (request : GroupByRequest) : Except ExplainError PhysicalPlan :=
  s.explainGroupByQueryWithOverlay request false

/-- `explain_vector_search_query`. -/
def explainVectorSearchQuery (request : VectorSearchRequest) :
    Except ExplainError PhysicalPlan := do
  let hydration ←
    (do let schema ← s.querySchema; schema.validateVectorSearch request).mapError .query
  s.planQuery
    (logicalOperators request.filter (.vectorSearch request.vectorColumn request.k
      request.filter.isSome hydration.isSome))
    request.filter false

end Snapshot

/-- `Transaction::explain_scan_query`. -/
def Transaction.explainScanQuery (t : Transaction) (request : ScanRequest) :
    Except ExplainError PhysicalPlan :=
  t.base.explainScanQueryWithOverlay request true

/-- `Transaction::explain_group_by_query`. -/
def Transaction.explainGroupByQuery (t : Transaction) (request : GroupByRequest) :
    Except ExplainError PhysicalPlan :=
  t.base.explainGroupByQueryWithOverlay request true

/-! ### Recorded executions -/

/-- What an execution has read: the predicate it held against zone maps, the data files it
opened and the number of segments it searched. -/
structure Trace where
  pruning : Option Predicate
  files : List ObjectName
  segments : ℕ
  deriving DecidableEq

def Trace.empty : Trace := ⟨none, [], 0⟩

/-- The loop of `fan_out`, with the number of segments searched. -/
def considerPartsTraced {ζ : Type} (D : Distances) (query : Vector) (k ef : ℕ)
    (filter : ℕ → Bool) (shouldScan : ζ → Bool) :
    List (SegmentPart ζ) → ℕ → TopKSelector → Option (Except IndexError TopKSelector × ℕ)
  | [], searched, selected => some (.ok selected, searched)
  | part :: rest, searched, selected =>
    if shouldScan part.2 then
      match kNnSearch D.metric D.heaps part.1.source query filter k ef with
      | none => none
      | some (.error e) => some (.error e, searched + 1)
      | some (.ok raw) =>
        considerPartsTraced D query k ef filter shouldScan rest (searched + 1)
          ((scoredRows part.1 raw).foldl TopKSelector.consider selected)
    else considerPartsTraced D query k ef filter shouldScan rest searched selected

/-- `fan_out`, recorded. -/
def fanOutTraced {ζ : Type} (D : Distances) (query : Vector) (k ef : ℕ) (filter : ℕ → Bool)
    (shouldScan : ζ → Bool) (parts : List (SegmentPart ζ)) :
    Option (Except IndexError (List VectorMatch) × ℕ) :=
  (considerPartsTraced D query k ef filter shouldScan parts 0 (.new k)).map fun (selected, n) =>
    (selected.map fun selected => selected.intoSorted.map fun p => ⟨p.1, D.mul p.2 p.2⟩, n)

namespace Snapshot

variable (P : Platform) (s : Snapshot) (store : Store)

/-- The loop of `read_surviving_files`, recorded. -/
def readFilesTraced {α : Type} (predicate : Option Predicate) (columns : Option (List String))
    (process : RecordBatch → Except TxnError α) :
    List DataFileEntry → Effect Trace TxnError (List α)
  | [] => pure []
  | entry :: rest =>
    if predicate.all (shouldScanFile entry.stats) then do
      Effect.record fun trace => { trace with files := trace.files ++ [entry.name] }
      let a ← Effect.lift (s.readSurvivingFile store columns process entry)
      let as ← readFilesTraced predicate columns process rest
      return a :: as
    else readFilesTraced predicate columns process rest

/-- `read_surviving_files`, recorded. -/
def readSurvivingFilesTraced {α : Type} (predicate : Option Predicate)
    (columns : Option (List String)) (process : RecordBatch → Except TxnError α) :
    Effect Trace QueryError (List α) :=
  Effect.mapError (fun e => .execution (.engine e)) do
    Effect.record fun trace => { trace with pruning := predicate }
    s.readFilesTraced store predicate columns process s.manifest.dataFiles

/-- `scan_query`, recorded. -/
def scanQueryTraced (request : ScanRequest) : Effect Trace QueryError ScanResult := do
  let schema ← Effect.lift s.querySchema
  let projection ← Effect.lift (schema.validateScan request)
  let columns := scanColumns projection request.filter
  let querySchema ← Effect.lift (engine (s.querySchemaForColumns columns))
  let pruning := request.filter.bind filterExpressionPruningPredicate
  let rows ← s.readSurvivingFilesTraced store pruning (some columns) fun batch => do
    let batch ← castBatchToSchema P.kernels batch querySchema
    let filtered ← filterBatch batch request.filter
    projectedRows filtered projection
  return ⟨projection, rows.flatten⟩

/-- `group_by_query`, recorded. -/
def groupByQueryTraced (F : FloatOps) (request : GroupByRequest) :
    Effect Trace QueryError GroupByResult := do
  let schema ← Effect.lift s.querySchema
  let outputs ← Effect.lift (schema.validateGroupBy request)
  let columns := groupByColumns request
  let querySchema ← Effect.lift (engine (s.querySchemaForColumns columns))
  let pruning := request.filter.bind filterExpressionPruningPredicate
  let batches ← s.readSurvivingFilesTraced store pruning (some columns) fun batch => do
    let batch ← castBatchToSchema P.kernels batch querySchema
    filterBatch batch request.filter
  let templates ← Effect.lift (aggregateTemplates request outputs)
  let groups ← Effect.lift (batches.foldlM (mergeFile F request templates) [])
  Effect.lift (GroupByResult.new request.groupBy outputs (groups.map fun p => p.2.row F))

/-- `vector_filter_live_set`, recorded. -/
def vectorFilterLiveSetTraced (filter : FilterExpression) : Effect Trace QueryError LiveSet := do
  let columns := pushUniqueColumn (filterColumns filter []) rowIdColumn
  let querySchema ← Effect.lift (engine (s.querySchemaForColumns columns))
  let pruning := filterExpressionPruningPredicate filter
  let rowIds ← s.readSurvivingFilesTraced store pruning (some columns) fun batch => do
    let batch ← castBatchToSchema P.kernels batch querySchema
    let selection ← filterMask batch filter
    let rowIds ← typedColumn batch rowIdColumn .uint64 (missingField rowIdColumn)
      (queryCastError rowIdColumn "UInt64")
    return ((rowIds.zip selection).filter fun p => p.2 = some true).map
      fun p => Cell.toRowId p.1
  return LiveSet.fromRowIds rowIds.flatten

/-- `resolve_filter_live_set`, recorded: a cached set is taken as it is. -/
def resolveFilterLiveSetTraced (cached : Option LiveSet) (filter : FilterExpression) :
    Effect Trace QueryError LiveSet :=
  match cached with
  | some live => pure live
  | none => s.vectorFilterLiveSetTraced P store filter

variable (D : Distances) (request : VectorSearchRequest)

/-- The matches of `vector_search_query`, recorded. -/
def vectorMatchesTraced (cached : Option LiveSet) :
    Option (Except QueryError (List VectorMatch) × Trace) :=
  match request.filter with
  | some filter =>
    match s.resolveFilterLiveSetTraced P store cached filter .empty with
    | (.error e, trace) => some (.error e, trace)
    | (.ok live, trace) =>
      (fanOutTraced D request.query request.k efSearchDefault
        (fun id => live.contains id && s.isVisible id) (zoneMapPermits filter) s.index).map
        fun (found, segments) => (engine (lift .index found),
          { trace with pruning := filterExpressionPruningPredicate filter, segments })
  | none =>
    (fanOutTraced D request.query request.k efSearchDefault s.isVisible (fun _ => true)
      s.index).map fun (found, segments) =>
        (engine (lift .index found), { Trace.empty with segments })

/-- `vector_search_query`, recorded up to the matches: their hydration looks single rows up
and adds nothing here. -/
def vectorSearchQueryTraced (cached : Option LiveSet) :
    Option (Except QueryError VectorSearchResult × Trace) :=
  match (do let schema ← s.querySchema; schema.validateVectorSearch request) with
  | .error e => some (.error e, .empty)
  | .ok projection =>
    (s.vectorMatchesTraced P store D request cached).map fun (found, trace) =>
      (do let found ← found; s.vectorHits P store request projection found, trace)

end Snapshot

end StrataDB.Txn
