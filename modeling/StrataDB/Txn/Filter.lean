import StrataDB.Query.Pruning
import StrataDB.Txn.Contract

/-! Typed filters (`filter_mask` and `filter_expression_pruning_predicate` in
`txn/src/snapshot.rs`). Floats are compared numerically here, as the bounds of a
file are, so a filter that the pruning predicate stands for is never true on a row
that the bounds rule out. -/

namespace StrataDB.Txn

open Lib Arrow Storage Query

/-! ### Masks -/

/-- The operators through those of an ordered type. -/
def ComparisonOperator.holds {α : Type} (operator : ComparisonOperator)
    (eq lt le : α → α → Bool) (actual value : α) : Bool :=
  match operator with
  | .equal => eq actual value
  | .notEqual => !eq actual value
  | .lessThan => lt actual value
  | .lessThanOrEqual => le actual value
  | .greaterThan => lt value actual
  | .greaterThanOrEqual => le value actual

/-- The orderings of the operands that an operator stands for. -/
def ComparisonOperator.orderings : ComparisonOperator → List Ordering
  | .equal => [.eq]
  | .notEqual => [.lt, .gt]
  | .lessThan => [.lt]
  | .lessThanOrEqual => [.lt, .eq]
  | .greaterThan => [.gt]
  | .greaterThanOrEqual => [.eq, .gt]

/-- In a linear order an operator holds by how its operands compare. -/
theorem ComparisonOperator.holds_iff {α : Type} [LinearOrder α] (operator : ComparisonOperator)
    (actual value : α) : operator.holds (· == ·) (· < ·) (· ≤ ·) actual value = true ↔
      compare actual value ∈ operator.orderings := by
  rcases lt_trichotomy actual value with h | h | h
  · rw [compare_lt_iff_lt.mpr h]
    cases operator <;> simp [holds, orderings, h, h.le, h.ne, h.not_gt, h.not_ge]
  · rw [compare_eq_iff_eq.mpr h]
    cases operator <;> simp [holds, orderings, h]
  · rw [compare_gt_iff_gt.mpr h]
    cases operator <;> simp [holds, orderings, h, h.le, h.ne', h.not_gt, h.not_ge]

/-- One slot of `comparison_mask_for`; a null is unknown. -/
def Comparison.cell (c : Comparison) (slot : Cell) : Option Bool :=
  match slot, c.value with
  | .boolean a, .boolean v => some (c.operator.holds (· == ·) (· < ·) (· ≤ ·) a v)
  | .int64 a, .int64 v => some (c.operator.holds (· == ·) (· < ·) (· ≤ ·) a v)
  | .uint64 a, .uint64 v => some (c.operator.holds (· == ·) (· < ·) (· ≤ ·) a v)
  | .float64 a, .float64 v => some (c.operator.holds Binary.eq Binary.lt Binary.le a v)
  | .utf8 a, .utf8 v => some (c.operator.holds (· == ·) (· < ·) (· ≤ ·) a v)
  | _, _ => none

/-- The array type a literal is compared with, and its name. -/
def FilterLiteral.arrayType : FilterLiteral → DataType × String
  | .boolean _ => (.boolean, "Boolean")
  | .int64 _ => (.int64, "Int64")
  | .uint64 _ => (.uint64, "UInt64")
  | .float64 _ => (.float64, "Float64")
  | .utf8 _ => (.utf8, "Utf8")

/-- `comparison_mask`. -/
def comparisonMask (batch : RecordBatch) (c : Comparison) :
    Except TxnError (List (Option Bool)) := do
  let index ← orElse (batch.schema.indexOf c.column) (missingField c.column)
  ensure (batch.schema.typeAt index = c.value.arrayType.1)
    (queryCastError c.column c.value.arrayType.2)
  return (batch.column index).map c.cell

/-- `filter_mask`. -/
def filterMask (batch : RecordBatch) : FilterExpression → Except TxnError (List (Option Bool))
  | .compare c => comparisonMask batch c
  | .and l r => do
    let left ← filterMask batch l
    let right ← filterMask batch r
    return List.zipWith Kleene.and left right
  | .or l r => do
    let left ← filterMask batch l
    let right ← filterMask batch r
    return List.zipWith Kleene.or left right
  | .not e => do
    let mask ← filterMask batch e
    return mask.map Kleene.not

/-- The rows of a batch that an optional filter keeps. -/
def filterBatch (batch : RecordBatch) : Option FilterExpression → Except TxnError RecordBatch
  | some filter => do
    let mask ← filterMask batch filter
    return filterRecordBatch batch mask
  | none => .ok batch

/-! ### Pruning -/

/-- The literals that file statistics know. -/
def FilterLiteral.pruningValue : FilterLiteral → Option Value
  | .int64 v => some (.int64 v)
  | .float64 v => some (.float64 v)
  | .utf8 v => some (.utf8 v)
  | .boolean _ | .uint64 _ => none

def ComparisonOperator.pruningOp : ComparisonOperator → Option CmpOp
  | .equal => some .eq
  | .lessThan => some .lt
  | .lessThanOrEqual => some .ltEq
  | .greaterThan => some .gt
  | .greaterThanOrEqual => some .gtEq
  | .notEqual => none

/-- `filter_expression_pruning_predicate`: none as soon as some part cannot be
expressed. -/
def filterExpressionPruningPredicate : FilterExpression → Option Predicate
  | .compare c => do
    let value ← c.value.pruningValue
    let op ← c.operator.pruningOp
    return op.leaf c.column value
  | .and l r => do
    return .and (← filterExpressionPruningPredicate l) (← filterExpressionPruningPredicate r)
  | .or l r => do
    return .or (← filterExpressionPruningPredicate l) (← filterExpressionPruningPredicate r)
  | .not _ => none

/-! ### Rows -/

/-- A filter over the answers of its comparisons. -/
def FilterExpression.eval (leaf : Comparison → Option Bool) : FilterExpression → Option Bool
  | .compare c => leaf c
  | .and l r => Kleene.and (l.eval leaf) (r.eval leaf)
  | .or l r => Kleene.or (l.eval leaf) (r.eval leaf)
  | .not e => Kleene.not (e.eval leaf)

/-- A comparison on one row. -/
def rowComparison (schema : Schema) (r : Row) (c : Comparison) : Option Bool :=
  (schema.indexOf c.column).bind fun i => c.cell (Row.cell r i)

/-- The row satisfies the filter; unknown does not count. -/
def selects (schema : Schema) (filter : Option FilterExpression) (r : Row) : Bool :=
  filter.all fun f => f.eval (rowComparison schema r) = some true

/-- The comparison names a column of the literal's type. -/
def ComparisonTyped (schema : Schema) (c : Comparison) : Prop :=
  ∃ i, schema.indexOf c.column = some i ∧ schema.typeAt i = c.value.arrayType.1

variable {batch : RecordBatch} {f : FilterExpression}

variable {leaf : Comparison → Option Bool} {c : Comparison}

theorem FilterExpression.eval_congr {leaf' : Comparison → Option Bool}
    (h : f.All fun c => leaf c = leaf' c) : f.eval leaf = f.eval leaf' := by
  induction f with
  | compare c => exact h
  | and l r ihl ihr => rw [eval, eval, ihl h.1, ihr h.2]
  | or l r ihl ihr => rw [eval, eval, ihl h.1, ihr h.2]
  | not e ih => rw [eval, eval, ih h]

theorem comparisonMask_of_typed (h : ComparisonTyped batch.schema c) :
    comparisonMask batch c = .ok (batch.rows.map fun r => rowComparison batch.schema r c) := by
  obtain ⟨i, hi, htype⟩ := h
  simp [comparisonMask, rowComparison, hi, orElse, ensure, htype, RecordBatch.column, pure,
    Except.pure]

theorem filterMask_of_typed (h : f.All (ComparisonTyped batch.schema)) :
    filterMask batch f = .ok (batch.rows.map fun r => f.eval (rowComparison batch.schema r)) := by
  induction f with
  | compare c => exact comparisonMask_of_typed h
  | and l r ihl ihr =>
    simp [filterMask, ihl h.1, ihr h.2, FilterExpression.eval, List.zipWith_map, pure, Except.pure]
  | or l r ihl ihr =>
    simp [filterMask, ihl h.1, ihr h.2, FilterExpression.eval, List.zipWith_map, pure, Except.pure]
  | not e ih => simp [filterMask, ih h, FilterExpression.eval, pure, Except.pure]

theorem filterBatch_of_typed {filter : Option FilterExpression}
    (h : ∀ f ∈ filter, f.All (ComparisonTyped batch.schema)) :
    filterBatch batch filter = .ok (batch.filter (selects batch.schema filter)) := by
  cases filter with
  | none =>
    refine congrArg Except.ok (RecordBatch.ext' rfl ?_)
    exact (List.filter_eq_self.mpr fun _ _ => rfl).symm
  | some f =>
    rw [filterBatch, filterMask_of_typed (h f rfl), ok_bind, filterRecordBatch_map]
    rfl

/-! ### Pruning is sound -/

/-- A comparison that is true on a slot is true of the slot's value. -/
theorem numeric_of_cell {slot : Cell} {op : CmpOp} {v : Value}
    (hop : c.operator.pruningOp = some op) (hv : c.value.pruningValue = some v)
    (h : c.cell slot = some true) : ∃ x, Cell.value? slot = some x ∧ op.numeric x v = true := by
  obtain ⟨column, operator, value⟩ := c
  cases value <;> cases hv <;> cases slot <;> first
    | cases h
    | skip
  · refine ⟨_, rfl, ?_⟩
    cases operator <;> cases hop <;>
      simp_all [Comparison.cell, ComparisonOperator.holds, CmpOp.numeric, Value.le, Value.lt]
  · refine ⟨_, rfl, ?_⟩
    cases operator <;> cases hop <;>
      simp_all [Comparison.cell, ComparisonOperator.holds, CmpOp.numeric, Value.le, Value.lt,
        Binary.eq, Binary.le]
  · refine ⟨_, rfl, ?_⟩
    cases operator <;> cases hop <;>
      simp_all [Comparison.cell, ComparisonOperator.holds, CmpOp.numeric, Value.le, Value.lt]

/-- A filter that is true passes its pruning predicate if every comparison that is
true passes its leaf. -/
theorem shouldScanFile_of_filter {stats : Stats}
    (h : f.All fun c => leaf c = some true → ∀ op v, c.operator.pruningOp = some op →
      c.value.pruningValue = some v → leafScan stats op c.column v = true)
    {p : Predicate} (hp : filterExpressionPruningPredicate f = some p)
    (heval : f.eval leaf = some true) : shouldScanFile stats p = true := by
  induction f generalizing p with
  | compare c =>
    simp only [filterExpressionPruningPredicate, Option.bind_eq_bind, Option.bind_eq_some_iff,
      Option.pure_def, Option.some.injEq] at hp
    obtain ⟨v, hv, op, hop, rfl⟩ := hp
    rw [CmpOp.leaf_shouldScanFile]
    exact h heval op v hop hv
  | and l r ihl ihr =>
    simp only [filterExpressionPruningPredicate, Option.bind_eq_bind, Option.bind_eq_some_iff,
      Option.pure_def, Option.some.injEq] at hp
    obtain ⟨pl, hpl, pr, hpr, rfl⟩ := hp
    obtain ⟨hl, hr⟩ := Kleene.and_eq_true.mp heval
    rw [shouldScanFile, ihl h.1 hpl hl, ihr h.2 hpr hr]
    rfl
  | or l r ihl ihr =>
    simp only [filterExpressionPruningPredicate, Option.bind_eq_bind, Option.bind_eq_some_iff,
      Option.pure_def, Option.some.injEq] at hp
    obtain ⟨pl, hpl, pr, hpr, rfl⟩ := hp
    rw [shouldScanFile, Bool.or_eq_true]
    exact (Kleene.or_eq_true.mp heval).imp (ihl h.1 hpl) (ihr h.2 hpr)
  | not e => cases hp

end StrataDB.Txn
