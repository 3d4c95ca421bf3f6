import StrataDB.Lib.Grouping
import StrataDB.Txn.Overlay

/-! Grouped aggregates (`group_by_query` and `group_by_query_overlay` in
`txn/src/snapshot.rs`). A snapshot groups the rows of each file on their own and merges
the groups of the files; a transaction groups the rows of all its batches in one
pass. -/

namespace StrataDB.Txn

open Lib Arrow Index Storage Query

/-! ### Keys -/

/-- A value of a group key. Floats are compared by their bits. -/
inductive GroupKeyValue
  | null
  | boolean (value : Bool)
  | int64 (value : ℤ)
  | uint64 (value : ℕ)
  | float64 (bits : F64)
  | utf8 (value : String)
  deriving DecidableEq

structure GroupKey where
  parts : List GroupKeyValue
  deriving DecidableEq

def GroupKeyValue.new : ResultValue → Except QueryError GroupKeyValue
  | .null => .ok .null
  | .boolean value => .ok (.boolean value)
  | .int64 value => .ok (.int64 value)
  | .uint64 value => .ok (.uint64 value)
  | .float64 value => .ok (.float64 value)
  | .utf8 value => .ok (.utf8 value)
  | .vector _ => engine (.error (queryCastError "group key" "scalar query type"))

/-- `GroupKey::new`. -/
def GroupKey.new (values : List ResultValue) : Except QueryError GroupKey := do
  return ⟨← values.mapM GroupKeyValue.new⟩

/-! ### Aggregates -/

/-- `f64` arithmetic, in which the model is parametric. -/
structure FloatOps where
  add : F64 → F64 → F64
  div : F64 → F64 → F64
  ofInt64 : ℤ → F64
  ofUInt64 : ℕ → F64

/-- The values of `i64`. -/
def FitsInt64 (v : ℤ) : Prop := -(2 ^ 63) ≤ v ∧ v < 2 ^ 63

instance (v : ℤ) : Decidable (FitsInt64 v) := inferInstanceAs (Decidable (_ ∧ _))

inductive AggregateState
  | count (count : ℕ)
  | int64Sum (sum : Option ℤ)
  | int64Minimum (minimum : Option ℤ)
  | int64Maximum (maximum : Option ℤ)
  | float64Sum (sum : Option F64)
  | float64Minimum (minimum : Option F64)
  | float64Maximum (maximum : Option F64)
  | float64Average (sum : F64) (count : ℕ)
  deriving DecidableEq

/-- Combine two optional values; a missing one is neutral. -/
def combine {α : Type} (f : α → α → α) : Option α → Option α → Option α
  | some a, some b => some (f a b)
  | none, b => b
  | a, none => a

namespace AggregateState

/-- `aggregate_state_type`. -/
def stateType : AggregateState → String
  | .count _ => "Count"
  | .int64Sum _ => "Int64Sum"
  | .int64Minimum _ => "Int64Minimum"
  | .int64Maximum _ => "Int64Maximum"
  | .float64Sum _ => "Float64Sum"
  | .float64Minimum _ => "Float64Minimum"
  | .float64Maximum _ => "Float64Maximum"
  | .float64Average _ _ => "Float64Average"

/-- `AggregateState::new`. -/
def new (aggregate : Aggregate) (output : AggregateOutput) : Except QueryError AggregateState :=
  match aggregate.function, output.dataType with
  | .count, .uint64 => .ok (.count 0)
  | .sum, .int64 => .ok (.int64Sum none)
  | .minimum, .int64 => .ok (.int64Minimum none)
  | .maximum, .int64 => .ok (.int64Maximum none)
  | .sum, .float64 => .ok (.float64Sum none)
  | .minimum, .float64 => .ok (.float64Minimum none)
  | .maximum, .float64 => .ok (.float64Maximum none)
  | .average, .float64 => .ok (.float64Average (Binary.zero _ _) 0)
  | _, _ => engine (.error (queryCastError aggregate.column "validated aggregate input"))

/-- `checked_add` of two optional sums. -/
def checkedSum (aliasName : String) (a b : Option ℤ) : Except QueryError (Option ℤ) :=
  match a, b with
  | some a, some b =>
    if FitsInt64 (a + b) then .ok (some (a + b))
    else .error (.execution (.int64SumOverflow aliasName))
  | a, b => .ok (combine (· + ·) a b)

/-- The integer a value must be. -/
def int64Value (aliasName : String) : ResultValue → Except QueryError ℤ
  | .int64 value => .ok value
  | _ => engine (.error (queryCastError aliasName "Int64"))

/-- `float_value`. -/
def floatValue (F : FloatOps) (aliasName : String) : ResultValue → Except QueryError F64
  | .int64 value => .ok (F.ofInt64 value)
  | .float64 value => .ok value
  | _ => engine (.error (queryCastError aliasName "numeric query type"))

/-- `AggregateState::update`. A null changes nothing. -/
def update (F : FloatOps) (aliasName : String) (state : AggregateState) (value : ResultValue) :
    Except QueryError AggregateState :=
  if value = .null then .ok state
  else match state with
    | .count n => .ok (.count ((n + 1) % u64Bound))
    | .int64Sum sum => do
      let value ← int64Value aliasName value
      return .int64Sum (← checkedSum aliasName sum (some value))
    | .int64Minimum minimum => do
      let value ← int64Value aliasName value
      return .int64Minimum (combine min minimum (some value))
    | .int64Maximum maximum => do
      let value ← int64Value aliasName value
      return .int64Maximum (combine max maximum (some value))
    | .float64Sum sum => do
      let value ← floatValue F aliasName value
      return .float64Sum (combine F.add sum (some value))
    | .float64Minimum minimum => do
      let value ← floatValue F aliasName value
      return .float64Minimum (combine float64Min minimum (some value))
    | .float64Maximum maximum => do
      let value ← floatValue F aliasName value
      return .float64Maximum (combine float64Max maximum (some value))
    | .float64Average sum n => do
      let value ← floatValue F aliasName value
      return .float64Average (F.add sum value) ((n + 1) % u64Bound)

/-- `checked_add` of two counts. -/
def checkedCount (aliasName : String) (a b : ℕ) : Except QueryError ℕ :=
  if a + b < u64Bound then .ok (a + b)
  else engine (.error (queryCastError aliasName "UInt64 count"))

/-- `AggregateState::merge`. -/
def merge (F : FloatOps) (aliasName : String) (state other : AggregateState) :
    Except QueryError AggregateState :=
  match state, other with
  | .count a, .count b => do return .count (← checkedCount aliasName a b)
  | .int64Sum a, .int64Sum b => do return .int64Sum (← checkedSum aliasName a b)
  | .int64Minimum a, .int64Minimum b => .ok (.int64Minimum (combine min a b))
  | .int64Maximum a, .int64Maximum b => .ok (.int64Maximum (combine max a b))
  | .float64Sum a, .float64Sum b => .ok (.float64Sum (combine F.add a b))
  | .float64Minimum a, .float64Minimum b => .ok (.float64Minimum (combine float64Min a b))
  | .float64Maximum a, .float64Maximum b => .ok (.float64Maximum (combine float64Max a b))
  | .float64Average a m, .float64Average b n => do
    return .float64Average (F.add a b) (← checkedCount aliasName m n)
  | state, _ => engine (.error (queryCastError aliasName state.stateType))

/-- `AggregateState::finish`. -/
def finish (F : FloatOps) : AggregateState → ResultValue
  | .count n => .uint64 n
  | .int64Sum value | .int64Minimum value | .int64Maximum value =>
    value.elim .null .int64
  | .float64Sum value | .float64Minimum value | .float64Maximum value =>
    value.elim .null .float64
  | .float64Average sum n => if n = 0 then .null else .float64 (F.div sum (F.ofUInt64 n))

end AggregateState

/-! ### Groups -/

structure GroupState where
  keys : List ResultValue
  aggregates : List AggregateState
  deriving DecidableEq

/-- The groups so far in the order of their first rows; the map from keys to positions
is not kept apart from the list. -/
abbrev Groups := List (GroupKey × GroupState)

/-- `group_by_columns`. -/
def groupByColumns (request : GroupByRequest) : List String :=
  pushUniqueColumn (filterColumns? request.filter
    ((request.aggregates.map Aggregate.column).foldl pushUniqueColumn
      (request.groupBy.foldl pushUniqueColumn []))) rowIdColumn

/-- The first state of every aggregate. -/
def aggregateTemplates (request : GroupByRequest) (outputs : List AggregateOutput) :
    Except QueryError (List AggregateState) :=
  (request.aggregates.zip outputs).mapM fun p => AggregateState.new p.1 p.2

section

variable (F : FloatOps) (request : GroupByRequest) (templates : List AggregateState)

/-- Add the values of a row to the states of its group. -/
def updateGroup (schema : Schema) (r : Row) (group : GroupState) :
    Except QueryError GroupState := do
  let aggregates ← (request.aggregates.zip group.aggregates).mapM fun (aggregate, state) => do
    let value ← engine (columnValue schema r aggregate.column)
    state.update F aggregate.aliasName value
  return { group with aggregates }

/-- One row. -/
def addRow (schema : Schema) (groups : Groups) (r : Row) : Except QueryError Groups := do
  let keys ← engine (request.groupBy.mapM (columnValue schema r))
  let key ← GroupKey.new keys
  upsert groups key ⟨keys, templates⟩ (updateGroup F request schema r)

/-- Merge the states of a file's group into a group. -/
def mergeStates (fileGroup group : GroupState) : Except QueryError GroupState := do
  let aggregates ← ((request.aggregates.zip fileGroup.aggregates).zip group.aggregates).mapM
    fun ((aggregate, other), state) => state.merge F aggregate.aliasName other
  return { group with aggregates }

/-- One group of a file. -/
def mergeGroup (groups : Groups) (fileGroup : GroupState) : Except QueryError Groups := do
  let key ← GroupKey.new fileGroup.keys
  upsert groups key ⟨fileGroup.keys, templates⟩ (mergeStates F request fileGroup)

/-- One file: group its rows, then merge its groups. -/
def mergeFile (groups : Groups) (batch : RecordBatch) : Except QueryError Groups := do
  let fileGroups ← batch.rows.foldlM (addRow F request templates batch.schema) []
  (fileGroups.map Prod.snd).foldlM (mergeGroup F request templates) groups

end

def GroupState.row (F : FloatOps) (group : GroupState) : GroupedRow :=
  ⟨group.keys, group.aggregates.map (AggregateState.finish F)⟩

/-- `Snapshot::group_by_query`. -/
def Snapshot.groupByQuery (P : Platform) (F : FloatOps) (s : Snapshot) (store : Store)
    (request : GroupByRequest) : Except QueryError GroupByResult := do
  let schema ← s.querySchema
  let outputs ← schema.validateGroupBy request
  let columns := groupByColumns request
  let querySchema ← engine (s.querySchemaForColumns columns)
  let pruning := request.filter.bind filterExpressionPruningPredicate
  let batches ← engine (s.readSurvivingFiles store pruning (some columns) fun batch => do
    let batch ← castBatchToSchema P.kernels batch querySchema
    filterBatch batch request.filter)
  let templates ← aggregateTemplates request outputs
  let groups ← batches.foldlM (mergeFile F request templates) []
  GroupByResult.new request.groupBy outputs (groups.map fun p => p.2.row F)

/-- `Snapshot::group_by_query_overlay`. -/
def Snapshot.groupByQueryOverlay (F : FloatOps) (s : Snapshot) (request : GroupByRequest)
    (batches : List RecordBatch) : Except QueryError GroupByResult := do
  let schema ← s.querySchema
  let outputs ← schema.validateGroupBy request
  let templates ← aggregateTemplates request outputs
  let groups ← batches.foldlM (fun groups batch => do
    let batch ← engine (filterBatch batch request.filter)
    batch.rows.foldlM (addRow F request templates batch.schema) groups) []
  GroupByResult.new request.groupBy outputs (groups.map fun p => p.2.row F)

/-- `Transaction::group_by_query`. -/
def Transaction.groupByQuery (P : Platform) (F : FloatOps) (t : Transaction) (store : Store)
    (request : GroupByRequest) : Except QueryError GroupByResult := do
  let batches ← engine (t.overlayBatches P store)
  t.base.groupByQueryOverlay F request batches

end StrataDB.Txn
