import StrataDB.Index.LiveSet
import StrataDB.Txn.Filter
import StrataDB.Txn.Snapshot

/-! Typed reads of a snapshot (`scan_query`, `lookup_row` and
`vector_filter_live_set` in `txn/src/snapshot.rs`). A request is validated against
the dataset's columns, only the columns it needs are read, and the hidden row id is
read along to leave out tombstoned rows. -/

namespace StrataDB.Txn

open Lib Arrow Index Storage Query

/-- `logical_type`. -/
def logicalType : DataType → Except TxnError LogicalType
  | .boolean => .ok .boolean
  | .int64 => .ok .int64
  | .uint64 => .ok .uint64
  | .float64 => .ok .float64
  | .utf8 => .ok .utf8
  | .fixedSizeList .float32 _ dimensions => .ok (.vector dimensions)
  | t => .error (.arrow (.castError s!"unsupported query column type {DataType.render t}"))

/-! ### Columns to read -/

/-- `push_unique_column`. -/
def pushUniqueColumn (columns : List String) (column : String) : List String :=
  if column ∈ columns then columns else columns ++ [column]

/-- `filter_columns`: the columns of a filter from left to right. -/
def filterColumns : FilterExpression → List String → List String
  | .compare c, columns => pushUniqueColumn columns c.column
  | .and l r, columns => filterColumns r (filterColumns l columns)
  | .or l r, columns => filterColumns r (filterColumns l columns)
  | .not e, columns => filterColumns e columns

/-- The columns of an optional filter. -/
def filterColumns? (filter : Option FilterExpression) (columns : List String) : List String :=
  match filter with
  | some filter => filterColumns filter columns
  | none => columns

/-- `scan_columns`. -/
def scanColumns (projection : List String) (filter : Option FilterExpression) : List String :=
  pushUniqueColumn (filterColumns? filter (projection.foldl pushUniqueColumn [])) rowIdColumn

/-! ### Values -/

/-- `result_value`: one cell of an array of this type. A vector with a nullable
child is refused even where it is null. -/
def resultValue (t : DataType) (c : Cell) : Except TxnError ResultValue :=
  match t with
  | .fixedSizeList _ true _ =>
    .error (queryCastError "vector" "FixedSizeList<Float32> with a non-nullable child")
  | _ =>
    if c.isNull then .ok .null
    else match t, c with
      | .boolean, .boolean v => .ok (.boolean v)
      | .int64, .int64 v => .ok (.int64 v)
      | .uint64, .uint64 v => .ok (.uint64 v)
      | .float64, .float64 v => .ok (.float64 v)
      | .utf8, .utf8 v => .ok (.utf8 v)
      | .fixedSizeList .float32 _ _, .vector xs => .ok (.vector xs)
      | .fixedSizeList _ _ _, _ => .error (queryCastError "vector" "FixedSizeList<Float32>")
      | _, _ => .error (queryCastError "projected column" "supported query type")

/-- The value of a named column of a row. -/
def columnValue (schema : Schema) (r : Row) (name : String) : Except TxnError ResultValue := do
  let index ← orElse (schema.indexOf name) (missingField name)
  resultValue (schema.typeAt index) (Row.cell r index)

/-- `projected_row`. -/
def projectedRow (schema : Schema) (projection : List String) (r : Row) :
    Except TxnError ProjectedRow := do
  let fields ← projection.mapM fun name => do
    return ⟨name, ← columnValue schema r name⟩
  return ⟨fields⟩

/-- `projected_rows`. -/
def projectedRows (batch : RecordBatch) (projection : List String) :
    Except TxnError (List ProjectedRow) :=
  batch.rows.mapM (projectedRow batch.schema projection)

/-! ### Queries -/

namespace Snapshot

/-- `query_schema`. -/
def querySchema (s : Snapshot) : Except QueryError DatasetSchema := do
  let columns ← engine (s.schema.fields.mapM fun field => do
    return LogicalColumn.mk field.name (← logicalType field.dataType) field.nullable)
  DatasetSchema.new columns

/-- `query_schema_for_columns`. -/
def querySchemaForColumns (s : Snapshot) (columns : List String) : Except TxnError Schema := do
  let fields ← columns.mapM fun column =>
    if column = rowIdColumn then .ok rowIdField
    else orElse (s.schema.fieldWithName column)
      (.batchSchemaMismatch s!"owned field named \"{column}\""
        s!"query field list missing \"{column}\"")
  return ⟨fields, s.schema.metadata⟩

/-- `Snapshot::scan_query`. -/
def scanQuery (P : Platform) (s : Snapshot) (store : Store) (request : ScanRequest) :
    Except QueryError ScanResult := do
  let schema ← s.querySchema
  let projection ← schema.validateScan request
  let columns := scanColumns projection request.filter
  let querySchema ← engine (s.querySchemaForColumns columns)
  let pruning := request.filter.bind filterExpressionPruningPredicate
  let rows ← engine (s.readSurvivingFiles store pruning (some columns) fun batch => do
    let batch ← castBatchToSchema P.kernels batch querySchema
    let filtered ← filterBatch batch request.filter
    projectedRows filtered projection)
  return ⟨projection, rows.flatten⟩

/-- `vector_filter_live_set`: the ids of the rows that satisfy the filter. -/
def vectorFilterLiveSet (P : Platform) (s : Snapshot) (store : Store)
    (filter : FilterExpression) : Except QueryError LiveSet := do
  let columns := pushUniqueColumn (filterColumns filter []) rowIdColumn
  let querySchema ← engine (s.querySchemaForColumns columns)
  let pruning := filterExpressionPruningPredicate filter
  let rowIds ← engine (s.readSurvivingFiles store pruning (some columns) fun batch => do
    let batch ← castBatchToSchema P.kernels batch querySchema
    let selection ← filterMask batch filter
    let rowIds ← typedColumn batch rowIdColumn .uint64 (missingField rowIdColumn)
      (queryCastError rowIdColumn "UInt64")
    return ((rowIds.zip selection).filter fun p => p.2 = some true).map
      fun p => Cell.toRowId p.1)
  return LiveSet.fromRowIds rowIds.flatten

/-- One file of `lookup_row`; none if the row is not in it. -/
def lookupFile (P : Platform) (s : Snapshot) (store : Store) (columns : List String)
    (querySchema : Schema) (projection : List String) (rowId : ℕ) (entry : DataFileEntry) :
    Except TxnError (Option RowLookupOutcome) := do
  let raw ← readBatchColumns store entry.name columns
  let batch ← castBatchToSchema P.kernels raw querySchema
  let rowIds ← typedColumn batch rowIdColumn .uint64 (missingField rowIdColumn)
    (queryCastError rowIdColumn "UInt64")
  match (batch.rows.zip rowIds).find? fun p => Cell.toRowId p.2 == rowId with
  | none => return none
  | some (row, _) =>
    if s.isVisible rowId then return some (.live (← projectedRow batch.schema projection row))
    else return some .tombstoned

/-- The loop of `lookup_row` over the files that cover the row. -/
def lookupFiles (lookup : DataFileEntry → Except TxnError (Option RowLookupOutcome)) :
    List DataFileEntry → Except TxnError RowLookupOutcome
  | [] => .ok .notFound
  | entry :: rest => do
    match ← lookup entry with
    | some outcome => return outcome
    | none => lookupFiles lookup rest

/-- `Snapshot::lookup_row`. -/
def lookupRow (P : Platform) (s : Snapshot) (store : Store) (request : RowLookupRequest) :
    Except QueryError RowLookupResult := do
  let schema ← s.querySchema
  let projection ← schema.validateRowLookup request
  if !s.ownsRow request.rowId then return ⟨request.rowId, projection, .notFound⟩
  let columns := pushUniqueColumn projection rowIdColumn
  let querySchema ← engine (s.querySchemaForColumns columns)
  let outcome ← engine (lookupFiles
    (s.lookupFile P store columns querySchema projection request.rowId)
    (s.manifest.dataFiles.filter (coversRow · request.rowId)))
  return ⟨request.rowId, projection, outcome⟩

end Snapshot

end StrataDB.Txn
