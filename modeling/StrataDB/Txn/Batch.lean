import StrataDB.Storage.Encoding
import StrataDB.Txn.Error

/-! Record batches as the dataset stores them (helpers of `txn/src/dataset.rs`).
A stored batch has the logical columns, possibly dictionary encoded, followed by
the hidden columns `_row_id` and `_timestamp`. -/

namespace StrataDB.Txn

open Lib Arrow Index Storage

def rowIdColumn : String := "_row_id"

def timestampColumn : String := "_timestamp"

def hiddenColumns : List String := [rowIdColumn, timestampColumn]

def vectorColumn : String := "vector"

def rowIdField : Field := Field.new rowIdColumn .uint64 false

def timestampField : Field := Field.new timestampColumn .int64 false

def DataType.render : DataType → String
  | .boolean => "Boolean"
  | .int32 => "Int32"
  | .int64 => "Int64"
  | .uint64 => "UInt64"
  | .float32 => "Float32"
  | .float64 => "Float64"
  | .utf8 => "Utf8"
  | .fixedSizeList item _ size => s!"FixedSizeList({size} x {DataType.render item})"
  | .dictionary key value => s!"Dictionary({DataType.render key}, {DataType.render value})"
  | .other name => name

def fieldDescription (field : Field) : String :=
  let nullability := if field.nullable then "nullable" else "required"
  s!"{field.name}: {DataType.render field.dataType} ({nullability})"

/-- `schema_description`. -/
def schemaDescription (schema : Schema) : String :=
  let fields := ", ".intercalate (schema.fields.map fieldDescription)
  s!"schema [{fields}]"

/-- `validate_dataset_schema`: no hidden column, no name twice. -/
def validateSchema (schema : Schema) : Except TxnError Unit :=
  go [] schema.fields
where
  go (seen : List String) : List Field → Except TxnError Unit
    | [] => .ok ()
    | f :: fs => do
      ensure (f.name ∉ hiddenColumns) (.reservedColumnName f.name)
      ensure (f.name ∉ seen)
        (.batchSchemaMismatch "unique dataset field names" s!"duplicate field name {f.name}")
      go (f.name :: seen) fs

/-- The row id a cell of `_row_id` holds. -/
def Cell.toRowId : Cell → ℕ
  | .uint64 v => v
  | _ => 0

def Cell.toTimestamp : Cell → ℤ
  | .int64 v => v
  | _ => 0

/-- The column with this name if it has this exact type. -/
def typedColumn (batch : RecordBatch) (name : String) (dataType : DataType)
    (missing mistyped : TxnError) : Except TxnError (List Cell) := do
  let index ← orElse (batch.schema.indexOf name) missing
  ensure (batch.schema.typeAt index = dataType) mistyped
  return batch.column index

def missingField (name : String) : TxnError :=
  .arrow (.schemaError s!"Unable to get field named {name}")

/-- Where one requested field is read and how its cells are converted. -/
def castColumn (K : Kernels) (physical : Schema) (field : Field) :
    Except TxnError (ℕ × (Cell → Cell)) := do
  let index ← orElse (physical.indexOf field.name)
    (.batchSchemaMismatch s!"physical field named {field.name}" (schemaDescription physical))
  if physical.typeAt index = field.dataType then return (index, id)
  let convert ← orElse (K.cast (physical.typeAt index) field.dataType)
    (.arrow (.castError "casting is not supported"))
  return (index, convert)

/-- `cast_batch_to_schema`: project by name and undo storage encodings. -/
def castBatchToSchema (K : Kernels) (batch : RecordBatch) (schema : Schema) :
    Except TxnError RecordBatch := do
  let columns ← schema.fields.mapM (castColumn K batch.schema)
  lift .arrow (RecordBatch.tryNewWithOptions schema
    (batch.rows.map fun r => columns.map fun c => c.2 (Row.cell r c.1)))

/-- The user columns as stored; a batch without columns is kept as it is. -/
def encodeUserColumns (K : Kernels) (batch : RecordBatch) : Except TxnError RecordBatch :=
  if batch.schema.fields = [] then .ok batch else lift .arrow (encodeBatch K batch)

/-- `append_row_id_column`: consecutive ids from `rowIdBase`. -/
def appendRowIdColumn (batch : RecordBatch) (rowIdBase numRows : ℕ) :
    Except TxnError RecordBatch :=
  lift .arrow (batch.appendColumn ⟨batch.schema.fields ++ [rowIdField], batch.schema.metadata⟩
    ((List.range numRows).map fun i => .uint64 (rowIdBase + i)))

/-- `append_timestamp_column`: one timestamp for every row. -/
def appendTimestampColumn (batch : RecordBatch) (ts : ℤ) (numRows : ℕ) :
    Except TxnError RecordBatch :=
  lift .arrow (batch.appendColumn ⟨batch.schema.fields ++ [timestampField], batch.schema.metadata⟩
    (List.replicate numRows (.int64 ts)))

/-- Put an element before the hidden columns of a stored row or schema. -/
def insertBeforeHidden {α : Type*} (xs : List α) (x : α) : List α :=
  xs.take (xs.length - hiddenColumns.length) ++ x :: xs.drop (xs.length - hiddenColumns.length)

/-- `append_migrated_nullable_column`: one more logical column, all null. -/
def appendMigratedNullableColumn (batch : RecordBatch) (column : Field) :
    Except TxnError RecordBatch := do
  ensure (hiddenColumns.length ≤ batch.schema.fields.length)
    (.storage (.migrationIncompatibleType
      "stored row batch does not contain the physical system columns"))
  lift .arrow (RecordBatch.tryNew
    ⟨insertBeforeHidden batch.schema.fields column, batch.schema.metadata⟩
    (batch.rows.map fun r => insertBeforeHidden r .null))

/-! ### Vectors -/

structure VectorInsert where
  rowId : ℕ
  vector : Vector
  deriving DecidableEq

/-- One row's vector, if it has one; every component must be finite. -/
def vectorInsert (rowId : ℕ) : Cell → Except TxnError (Option VectorInsert)
  | .vector xs =>
    if xs.all Binary.isFinite then .ok (some ⟨rowId, xs⟩)
    else .error (.nonFiniteVectorComponent rowId)
  | _ => .ok none

/-- The position of the vector column, none in a table without one. It must be a
list of 32-bit floats. -/
def vectorIndex (schema : Schema) : Except TxnError (Option ℕ) :=
  match schema.indexOf vectorColumn with
  | none => .ok none
  | some index =>
    match schema.typeAt index with
    | .fixedSizeList .float32 _ _ => .ok (some index)
    | .fixedSizeList _ _ _ => .error (.arrow (.castError "vector column's inner type must be Float32"))
    | _ => .error (.arrow (.castError "vector column must be FixedSizeList"))

/-- `build_vector_inserts`: row ids count up from `rowIdBase`. -/
def buildVectorInserts (batch : RecordBatch) (rowIdBase : ℕ) :
    Except TxnError (List VectorInsert) := do
  match ← vectorIndex batch.schema with
  | none => return []
  | some index =>
    let inserts ← batch.rows.zipIdx.mapM fun (r, i) => do
      let rowId ← checkedAdd rowIdBase i s!"row_id_base {rowIdBase} + {i}"
      vectorInsert rowId (Row.cell r index)
    return inserts.reduceOption

/-- `build_vector_inserts_with_physical_row_ids`: row ids are read from the
batch. -/
def buildVectorInsertsWithPhysicalRowIds (batch : RecordBatch) :
    Except TxnError (List VectorInsert) := do
  let mismatch := TxnError.batchSchemaMismatch "physical _row_id UInt64"
    (schemaDescription batch.schema)
  match ← vectorIndex batch.schema with
  | none => return []
  | some index =>
    let rowIds ← typedColumn batch rowIdColumn .uint64 mismatch mismatch
    let inserts ← (batch.rows.zip rowIds).mapM fun (r, id) =>
      vectorInsert (Cell.toRowId id) (Row.cell r index)
    return inserts.reduceOption

/-- `validate_vector_dimensions`: all vectors have the established dimension, or
that of the first one if none is established. -/
def validateVectorDimensions : List VectorInsert → ℕ → Except TxnError Unit
  | [], _ => .ok ()
  | insert :: rest, expected =>
    if expected = 0 then validateVectorDimensions rest insert.vector.length
    else if insert.vector.length = expected then validateVectorDimensions rest expected
    else .error (.index (.dimensionMismatch insert.vector.length expected))

end StrataDB.Txn
