import StrataDB.Query.Mask

/-! Grouping a batch in memory (`query/src/group_by.rs`). The rows are taken one by one;
a row with a new key gets the next group number and one more slot in every accumulator,
and then its values update the slots of its group. -/

namespace StrataDB.Query

open Lib Arrow

inductive AggFunc
  | count
  | sum
  | min
  | max
  | avg
  deriving DecidableEq

/-- The name that `Debug` prints. -/
def AggFunc.debugName : AggFunc → String
  | count => "Count"
  | sum => "Sum"
  | min => "Min"
  | max => "Max"
  | avg => "Avg"

inductive AggValue
  | int (value : ℤ)
  | float (value : F64)
  deriving DecidableEq

/-- A batch with what `Array::is_null` says of its arrays. That only looks at the null
buffer of an array: a `Null` array has none, and a dictionary or a run may have a null
among its values. The row offsets of a batch fit in memory. -/
structure ArrayBatch where
  batch : RecordBatch
  isNull : ℕ → ℕ → Bool
  sound : ∀ column i r, batch.rows[i]? = some r → isNull column i = true →
    (Row.cell r column).isNull = true
  bounded : batch.numRows < 2 ^ 60

/-- The kernels that grouping uses: arrow's row format besides its casts, and `f64`. -/
structure GroupKernels extends Kernels where
  /-- `DataType::is_numeric`. -/
  isNumeric : DataType → Bool
  /-- The bytes of a row, compared as such. -/
  Encoded : Type
  decEq : DecidableEq Encoded
  /-- `RowConverter::convert_columns`, for one row. -/
  encodeRow : List DataType → Row → Encoded
  /-- `RowConverter::convert_rows`, for one row. -/
  decodeRow : List DataType → Encoded → Row
  add : F64 → F64 → F64
  div : F64 → F64 → F64
  minimum : F64 → F64 → F64
  maximum : F64 → F64 → F64
  ofUInt64 : ℕ → F64
  toLowercase : String → String

instance (K : GroupKernels) : DecidableEq K.Encoded := K.decEq

def F64.zero : F64 := Binary.zero 11 52

/-- `f64::INFINITY` and `f64::NEG_INFINITY`. -/
def F64.infinity (negative : Bool) : F64 := ⟨negative, Binary.infinity 11 52, by decide⟩

/-! ### Accumulators -/

inductive ColumnarAccumulator
  | count (v : List ℕ)
  | sum (sum : List F64) (count : List ℕ)
  | min (min : List F64) (count : List ℕ)
  | max (max : List F64) (count : List ℕ)
  | avg (sum : List F64) (count : List ℕ)

namespace ColumnarAccumulator

def new : AggFunc → ColumnarAccumulator
  | .count => count []
  | .sum => sum [] []
  | .min => min [] []
  | .max => max [] []
  | .avg => avg [] []

def pushIdentity : ColumnarAccumulator → ColumnarAccumulator
  | count v => count (v ++ [0])
  | sum s c => sum (s ++ [F64.zero]) (c ++ [0])
  | min m c => min (m ++ [F64.infinity false]) (c ++ [0])
  | max m c => max (m ++ [F64.infinity true]) (c ++ [0])
  | avg s c => avg (s ++ [F64.zero]) (c ++ [0])

variable (K : GroupKernels)

def update (group : ℕ) (value : F64) : ColumnarAccumulator → ColumnarAccumulator
  | count v => count (v.modify group (· + 1))
  | sum s c => sum (s.modify group (K.add · value)) (c.modify group (· + 1))
  | min m c => min (m.modify group (K.minimum · value)) (c.modify group (· + 1))
  | max m c => max (m.modify group (K.maximum · value)) (c.modify group (· + 1))
  | avg s c => avg (s.modify group (K.add · value)) (c.modify group (· + 1))

/-- A value that was updated at least once. -/
def emit (value : F64) (count : ℕ) : Option AggValue :=
  if count ≠ 0 then some (.float value) else none

def finishAll : ColumnarAccumulator → List (Option AggValue)
  -- `n as i64`
  | count v => v.map fun (n : ℕ) => some (.int ((n : ℤ).bmod (2 ^ 64)))
  | sum s c => List.zipWith emit s c
  | min m c => List.zipWith emit m c
  | max m c => List.zipWith emit m c
  | avg s c => List.zipWith (fun s c => emit (K.div s (K.ofUInt64 c)) c) s c

end ColumnarAccumulator

/-! ### The arrays of the aggregates -/

/-- The array of an aggregate, cast to `Float64` unless it is only counted. -/
structure AggArray where
  func : AggFunc
  inputNullable : Bool
  isNull : ℕ → Bool
  cells : List Cell

/-- An aggregate's array in the row loop. -/
structure AggColumn where
  func : AggFunc
  inputNullable : Bool
  isNull : ℕ → Bool
  floats : Option (List F64)

def missingColumn (name : String) : ArrowError :=
  .schemaError s!"Unable to get field named {name}"

variable (K : GroupKernels) (input : ArrayBatch)

def aggArray (agg : String × AggFunc) : Except ArrowError AggArray := do
  let index ← orElse (input.batch.schema.indexOf agg.1) (missingColumn agg.1)
  let nullable := (input.batch.schema.fields[index]?.map Field.nullable).getD false
  if agg.2 = .count then return ⟨agg.2, nullable, input.isNull index, input.batch.column index⟩
  let dataType := input.batch.schema.typeAt index
  ensure (K.isNumeric (valueType dataType) = true)
    (.invalidArgument s!"column {agg.1} is not numeric, cannot apply {agg.2.debugName}")
  let convert ← orElse (K.cast dataType .float64) (.castError "casting is not supported")
  let cells := (input.batch.column index).map convert
  return ⟨agg.2, nullable, fun i => (cells.getD i .null).isNull, cells⟩

/-- A slot of a `Float64Array`; that of a null holds no value of interest. -/
def floatSlot : Cell → Except ArrowError F64
  | .float64 x => .ok x
  | .null => .ok F64.zero
  | _ => .error (.castError "expected Float64 after cast")

def AggArray.downcast (array : AggArray) : Except ArrowError AggColumn := do
  if array.func = .count then return ⟨array.func, array.inputNullable, array.isNull, none⟩
  let floats ← array.cells.mapM floatSlot
  return ⟨array.func, array.inputNullable, array.isNull, some floats⟩

/-- The body of the inner loop. -/
def AggColumn.update (column : AggColumn) (i group : ℕ) (acc : ColumnarAccumulator) :
    ColumnarAccumulator :=
  if column.isNull i then acc
  else if column.func = .count then acc.update K group F64.zero
  else match column.floats with
    | some col => acc.update K group (col.getD i F64.zero)
    | none => acc

/-! ### The row loop -/

structure GroupState where
  groupIndexOf : List (K.Encoded × ℕ)
  groupKeyRows : List K.Encoded
  state : List ColumnarAccumulator

variable {K}

/-- `entry(row).or_insert_with(..)`. -/
def GroupState.entry (s : GroupState K) (row : K.Encoded) : ℕ × GroupState K :=
  match s.groupIndexOf.lookup row with
  | some group => (group, s)
  | none =>
    (s.groupKeyRows.length,
      { groupIndexOf := (row, s.groupKeyRows.length) :: s.groupIndexOf
        groupKeyRows := s.groupKeyRows ++ [row]
        state := s.state.map ColumnarAccumulator.pushIdentity })

def GroupState.visit (columns : List AggColumn) (s : GroupState K) (row : K.Encoded × ℕ) :
    GroupState K :=
  let (group, s) := s.entry row.1
  let updated := List.zipWith (fun column acc => column.update K row.2 group acc) columns s.state
  { s with state := updated }

/-! ### The result -/

variable (K)

/-- `finish_agg_column`. The two types of values never meet. -/
def finishAggColumn (values : List (Option AggValue)) (agg : String × AggFunc)
    (inputNullable : Bool) : Field × List Cell :=
  let fieldName := K.toLowercase s!"{agg.1}_{agg.2.debugName}"
  if agg.2 = .count then
    (.new fieldName .int64 false, values.map fun
      | some (.int n) => .int64 n
      | _ => .null)
  else
    (.new fieldName .float64 inputNullable, values.map fun
      | some (.float x) => .float64 x
      | _ => .null)

def buildResultBatch (groupCols : List String) (types : List DataType)
    (aggs : List (String × AggFunc)) (s : GroupState K) (inputNullable : List Bool) :
    Except ArrowError RecordBatch :=
  let groupFields := List.zipWith (fun name t => Field.new name (valueType t) true) groupCols types
  let finished := List.zipWith
    (fun agg acc => finishAggColumn K (acc.1.finishAll K) agg acc.2) aggs
    (s.state.zip inputNullable)
  RecordBatch.tryNew ⟨groupFields ++ finished.map Prod.fst, []⟩
    (s.groupKeyRows.zipIdx.map fun row =>
      K.decodeRow types row.1 ++ finished.map fun column => column.2.getD row.2 .null)

/-- `group_by`. -/
def groupBy (groupCols : List String) (aggs : List (String × AggFunc)) :
    Except ArrowError RecordBatch := do
  ensure (groupCols ≠ []) (.invalidArgument "group_by requires at least one group column")
  let indices ← groupCols.mapM fun name =>
    orElse (input.batch.schema.indexOf name) (missingColumn name)
  let arrays ← aggs.mapM (aggArray K input)
  let types := indices.map input.batch.schema.typeAt
  ensure (types.all K.rowConvertible = true) (.invalidArgument "not yet implemented row format")
  let rows := input.batch.rows.map fun r => K.encodeRow types (indices.map (Row.cell r))
  let columns ← arrays.mapM AggArray.downcast
  let start : GroupState K := ⟨[], [], aggs.map fun agg => .new agg.2⟩
  buildResultBatch K groupCols types aggs (rows.zipIdx.foldl (GroupState.visit columns) start)
    (arrays.map AggArray.inputNullable)

end StrataDB.Query
