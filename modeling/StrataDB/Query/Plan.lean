import StrataDB.Lib.Except

/-! Logical and physical plans (`query/src/plan.rs`): a validated pipeline of operators, the
operators that execute it, and what was known of the snapshot when the plan was made. -/

namespace StrataDB.Query

open Lib

inductive LogicalOperator
  | source
  | predicate (zoneMapEligible : Bool)
  | projection (columns : List String)
  | grouping (keys : List String) (aggregateCount : ℕ)
  | vectorSearch (vectorColumn : String) (k : ℕ) (hasFilter hydration : Bool)
  | materialize
  deriving DecidableEq

/-- The operators that produce the result stream. -/
def LogicalOperator.isResult : LogicalOperator → Bool
  | .projection _ | .grouping _ _ | .vectorSearch _ _ _ _ => true
  | _ => false

def LogicalOperator.isPredicate : LogicalOperator → Bool
  | .predicate _ => true
  | _ => false

inductive PlanError
  | invalidLogicalShape
  | conflictingTerminalOperators
  deriving DecidableEq

/-- The pipelines the planner supports. -/
def supportedOrder : List LogicalOperator → Bool
  | [.source, result, .materialize] => result.isResult
  | [.source, .predicate _, result, .materialize] => result.isResult
  | _ => false

/-- `LogicalPlan`. -/
structure LogicalPlan where
  operators : List LogicalOperator
  supported : supportedOrder operators = true

/-- `LogicalPlan::new`. -/
def LogicalPlan.new (operators : List LogicalOperator) : Except PlanError LogicalPlan := do
  ensure (operators.head? = some .source ∧ operators.getLast? = some .materialize)
    .invalidLogicalShape
  ensure (operators.countP LogicalOperator.isResult = 1) .conflictingTerminalOperators
  if h : supportedOrder operators = true then return ⟨operators, h⟩
  else throw .invalidLogicalShape

inductive PhysicalOperator
  | manifestSnapshotSource
  | zoneMapPruning
  | tombstoneFilter
  | rowFilter
  | columnProjection
  | hashGroupBy
  | filterLiveSet
  | immutableSegmentVectorSearch
  | hydrationLookup
  | transactionOverlay
  | materialize
  deriving DecidableEq

structure PlanObservations where
  dataFilesTotal : ℕ
  dataFilesScanned : ℕ
  dataFilesPruned : ℕ
  indexSegmentsTotal : ℕ
  indexSegmentsScanned : ℕ
  indexSegmentsPruned : ℕ
  transactionOverlay : Bool
  deriving DecidableEq

structure PhysicalPlan where
  logicalOperators : List LogicalOperator
  physicalOperators : List PhysicalOperator
  observations : PlanObservations
  deriving DecidableEq

/-- An operator that is there on a condition. -/
def operatorIf (condition : Bool) (operator : PhysicalOperator) : List PhysicalOperator :=
  if condition then [operator] else []

/-- The operators that read rows. -/
def rowSource (overlay zoneMapEligible hasPredicate : Bool) : List PhysicalOperator :=
  [.manifestSnapshotSource] ++
    (if overlay then [.tombstoneFilter, .transactionOverlay]
      else operatorIf zoneMapEligible .zoneMapPruning ++ [.tombstoneFilter]) ++
    operatorIf hasPredicate .rowFilter

/-- The operators for a result operator. -/
def physicalOperators (overlay zoneMapEligible hasPredicate : Bool) :
    LogicalOperator → Except PlanError (List PhysicalOperator)
  | .projection _ =>
    .ok (rowSource overlay zoneMapEligible hasPredicate ++ operatorIf (!overlay) .columnProjection)
  | .grouping _ _ => .ok (rowSource overlay zoneMapEligible hasPredicate ++ [.hashGroupBy])
  | .vectorSearch _ _ hasFilter hydration =>
    .ok ((if hasFilter
      then operatorIf zoneMapEligible .zoneMapPruning ++ [.filterLiveSet] else []) ++
      [.tombstoneFilter, .immutableSegmentVectorSearch] ++ operatorIf hydration .hydrationLookup)
  | _ => .error .invalidLogicalShape

/-- With a transaction's overlay every file is read. -/
def PlanObservations.observed (observations : PlanObservations) : PlanObservations :=
  if observations.transactionOverlay then
    { observations with
      dataFilesScanned := observations.dataFilesTotal
      dataFilesPruned := 0
      indexSegmentsScanned := 0
      indexSegmentsPruned := 0 }
  else observations

/-- The operator that says what the plan's result is. -/
def resultOperator (operators : List LogicalOperator) : Option LogicalOperator :=
  operators.find? LogicalOperator.isResult

/-- `Planner::plan`. -/
def plan (logical : LogicalPlan) (observations : PlanObservations) :
    Except PlanError PhysicalPlan := do
  let observations := observations.observed
  let hasPredicate := logical.operators.any LogicalOperator.isPredicate
  let zoneMapEligible := logical.operators.any (· = .predicate true)
  let result ← orElse (resultOperator logical.operators) .invalidLogicalShape
  let operators ← physicalOperators observations.transactionOverlay zoneMapEligible hasPredicate
    result
  return ⟨logical.operators, operators ++ [.materialize], observations⟩

end StrataDB.Query
