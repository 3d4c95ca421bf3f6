import StrataDB.Txn.Batch

/-! The typed query contract (`txn/src/query.rs`): requests, results, errors, and
the validation of a request against the columns of a dataset. -/

namespace StrataDB.Txn

open Lib Arrow Index Storage

/-! ### Types and literals -/

/-- A type of the query contract. -/
inductive LogicalType
  | boolean
  | int64
  | uint64
  | float64
  | utf8
  | vector (dimensions : ℕ)
  deriving DecidableEq

def LogicalType.isScalar : LogicalType → Bool
  | .vector _ => false
  | _ => true

def LogicalType.isNumeric : LogicalType → Bool
  | .int64 | .float64 => true
  | _ => false

inductive FilterLiteral
  | boolean (value : Bool)
  | int64 (value : ℤ)
  | uint64 (value : ℕ)
  | float64 (value : F64)
  | utf8 (value : String)
  deriving DecidableEq

def FilterLiteral.logicalType : FilterLiteral → LogicalType
  | .boolean _ => .boolean
  | .int64 _ => .int64
  | .uint64 _ => .uint64
  | .float64 _ => .float64
  | .utf8 _ => .utf8

structure LogicalColumn where
  name : String
  dataType : LogicalType
  nullable : Bool
  deriving DecidableEq

/-- The columns of a dataset without the hidden ones. -/
structure DatasetSchema where
  columns : List LogicalColumn
  deriving DecidableEq

/-! ### Requests -/

inductive Projection
  | all
  | columns (names : List String)
  deriving DecidableEq

inductive ComparisonOperator
  | equal
  | notEqual
  | lessThan
  | lessThanOrEqual
  | greaterThan
  | greaterThanOrEqual
  deriving DecidableEq

structure Comparison where
  column : String
  operator : ComparisonOperator
  value : FilterLiteral
  deriving DecidableEq

inductive FilterExpression
  | compare (comparison : Comparison)
  | and (left right : FilterExpression)
  | or (left right : FilterExpression)
  | not (expression : FilterExpression)
  deriving DecidableEq

structure ScanRequest where
  projection : Projection
  filter : Option FilterExpression
  deriving DecidableEq

structure RowLookupRequest where
  rowId : ℕ
  projection : Projection
  deriving DecidableEq

inductive AggregateFunction
  | count
  | sum
  | minimum
  | maximum
  | average
  deriving DecidableEq

/-- `output_type`: none if the function does not take the input. -/
def AggregateFunction.outputType : AggregateFunction → LogicalType → Option LogicalType
  | .count, input => if input.isScalar then some .uint64 else none
  | .average, input => if input.isNumeric then some .float64 else none
  | _, input => if input.isNumeric then some input else none

structure Aggregate where
  column : String
  function : AggregateFunction
  aliasName : String
  deriving DecidableEq

structure GroupByRequest where
  groupBy : List String
  aggregates : List Aggregate
  filter : Option FilterExpression
  deriving DecidableEq

/-! ### Results -/

inductive ResultValue
  | null
  | boolean (value : Bool)
  | int64 (value : ℤ)
  | uint64 (value : ℕ)
  | float64 (value : F64)
  | utf8 (value : String)
  | vector (components : List F32)
  deriving DecidableEq

structure ProjectedField where
  name : String
  value : ResultValue
  deriving DecidableEq

structure ProjectedRow where
  fields : List ProjectedField
  deriving DecidableEq

structure ScanResult where
  projection : List String
  rows : List ProjectedRow
  deriving DecidableEq

inductive RowLookupOutcome
  | live (row : ProjectedRow)
  | tombstoned
  | notFound
  deriving DecidableEq

structure RowLookupResult where
  rowId : ℕ
  projection : List String
  outcome : RowLookupOutcome
  deriving DecidableEq

/-- `ResultValue::logical_type`: none for null. -/
def ResultValue.logicalType : ResultValue → Option LogicalType
  | .null => none
  | .boolean _ => some .boolean
  | .int64 _ => some .int64
  | .uint64 _ => some .uint64
  | .float64 _ => some .float64
  | .utf8 _ => some .utf8
  | .vector values => some (.vector values.length)

def ResultValue.isVector : ResultValue → Bool
  | .vector _ => true
  | _ => false

/-- A validated aggregate output field. -/
structure AggregateOutput where
  aliasName : String
  dataType : LogicalType
  deriving DecidableEq

structure GroupedRow where
  keys : List ResultValue
  aggregates : List ResultValue
  deriving DecidableEq

structure GroupByResult where
  groupBy : List String
  aggregates : List AggregateOutput
  rows : List GroupedRow
  deriving DecidableEq

/-! ### Errors -/

inductive QueryValidationError
  | reservedColumn (name : String)
  | duplicateSchemaColumn (name : String)
  | zeroVectorDimensions (name : String)
  | unknownColumn (name : String)
  | duplicateProjection (name : String)
  | filterTypeMismatch (column : String) (expected actual : LogicalType)
  | nonScalarFilterColumn (name : String)
  | invalidComparisonOperator (column : String) (operator : ComparisonOperator)
      (dataType : LogicalType)
  | nonScalarGroupColumn (name : String)
  | duplicateGroupColumn (name : String)
  | emptyGroupBy
  | duplicateAggregateAlias (aliasName : String)
  | invalidAggregateOutputType (aliasName : String) (actual : LogicalType)
  | invalidAggregateType (column : String) (function : AggregateFunction) (actual : LogicalType)
  | invalidVectorK
  | unsupportedVectorColumn (name : String)
  | notVectorColumn (name : String) (actual : LogicalType)
  | nonFiniteVectorComponent (index : ℕ)
  | vectorDimensionMismatch (expected actual : ℕ)
  deriving DecidableEq

inductive QueryExecutionError
  | engine (error : TxnError)
  | int64SumOverflow (aliasName : String)
  | tooManyVectorHits (requestedK actual : ℕ)
  | negativeVectorDistance (rowId : ℕ)
  | nonFiniteVectorDistance (rowId : ℕ)
  | nonMonotonicVectorDistances (previousRowId rowId : ℕ)
  | unexpectedHydration (rowId : ℕ)
  | missingHydration (rowId : ℕ)
  | hydrationProjectionMismatch (rowId : ℕ) (expected actual : List String)
  | groupResultShape (row expectedKeys actualKeys expectedAggregates actualAggregates : ℕ)
  | nonScalarGroupResult (row : ℕ)
  | nullCountAggregate (aliasName : String)
  | aggregateResultTypeMismatch (aliasName : String) (expected actual : LogicalType)
  deriving DecidableEq

inductive QueryError
  | validation (error : QueryValidationError)
  | execution (error : QueryExecutionError)
  deriving DecidableEq

/-- A failure of the engine under the contract's error type. -/
def engine {α : Type} : Except TxnError α → Except QueryError α :=
  Except.mapError fun e => .execution (.engine e)

variable {α : Type} {p q : Comparison → Prop} {f : FilterExpression}

@[simp] theorem engine_ok (a : α) : engine (.ok a) = .ok a := rfl

@[simp] theorem engine_eq_ok {x : Except TxnError α} {a : α} : engine x = .ok a ↔ x = .ok a := by
  cases x <;> simp [engine, Except.mapError]

theorem engine_bind_map {β γ : Type} (x : Except TxnError α) (f : α → β)
    (k : β → Except QueryError γ) : (engine x >>= fun a => k (f a)) = (engine (x.map f) >>= k) := by
  cases x <;> rfl

/-- Stop with a validation error unless the condition holds. -/
def require (c : Prop) [Decidable c] (e : QueryValidationError) : Except QueryError Unit :=
  ensure c (.validation e)

@[simp] theorem require_eq_ok {c : Prop} {_ : Decidable c} {e : QueryValidationError} {u : Unit} :
    require c e = .ok u ↔ c :=
  ensure_eq_ok

/-- `query_cast_error`. -/
def queryCastError (column expected : String) : TxnError :=
  .arrow (.castError s!"query column \"{column}\" must be {expected}")

/-! ### Validation -/

/-- `validate_user_column_name`. -/
def validateUserColumnName (name : String) : Except QueryError Unit :=
  require (name ∉ hiddenColumns) (.reservedColumn name)

namespace DatasetSchema

/-- `DatasetSchema::new`: no hidden name, no empty vector, no name twice. -/
def new (columns : List LogicalColumn) : Except QueryError DatasetSchema := do
  go [] columns
  return ⟨columns⟩
where
  go (names : List String) : List LogicalColumn → Except QueryError Unit
    | [] => .ok ()
    | column :: rest => do
      validateUserColumnName column.name
      require (column.dataType ≠ .vector 0) (.zeroVectorDimensions column.name)
      require (column.name ∉ names) (.duplicateSchemaColumn column.name)
      go (column.name :: names) rest

/-- `DatasetSchema::column`. -/
def column (schema : DatasetSchema) (name : String) : Except QueryError LogicalColumn := do
  validateUserColumnName name
  orElse (schema.columns.find? fun c => c.name == name) (.validation (.unknownColumn name))

/-- `validate_projection`: the projected names, in the order they are asked for. -/
def validateProjection (schema : DatasetSchema) : Projection → Except QueryError (List String)
  | .all => .ok (schema.columns.map LogicalColumn.name)
  | .columns names => do
    go [] names
    return names
where
  go (seen : List String) : List String → Except QueryError Unit
    | [] => .ok ()
    | name :: rest => do
      let _ ← schema.column name
      require (name ∉ seen) (.duplicateProjection name)
      go (name :: seen) rest

/-- `validate_comparison`: a scalar column of the literal's type; booleans are only
compared for equality. -/
def validateComparison (schema : DatasetSchema) (comparison : Comparison) :
    Except QueryError Unit := do
  let field ← schema.column comparison.column
  require (field.dataType.isScalar = true) (.nonScalarFilterColumn comparison.column)
  let actual := comparison.value.logicalType
  require (field.dataType = actual)
    (.filterTypeMismatch comparison.column field.dataType actual)
  require (field.dataType = .boolean → comparison.operator ∈ [.equal, .notEqual])
    (.invalidComparisonOperator comparison.column comparison.operator field.dataType)

/-- `validate_filter`. -/
def validateFilter (schema : DatasetSchema) : FilterExpression → Except QueryError Unit
  | .compare comparison => schema.validateComparison comparison
  | .and left right => do
    schema.validateFilter left
    schema.validateFilter right
  | .or left right => do
    schema.validateFilter left
    schema.validateFilter right
  | .not expression => schema.validateFilter expression

/-- Validation of an optional filter. -/
def validateFilter? (schema : DatasetSchema) (filter : Option FilterExpression) :
    Except QueryError Unit :=
  match filter with
  | some filter => schema.validateFilter filter
  | none => .ok ()

/-- `validate_scan`: the output columns. -/
def validateScan (schema : DatasetSchema) (request : ScanRequest) :
    Except QueryError (List String) := do
  let projection ← schema.validateProjection request.projection
  schema.validateFilter? request.filter
  return projection

/-- The group columns of `validate_group_by`: scalar, none twice. The names are those
of the outputs so far. -/
def validateGroupColumns (schema : DatasetSchema) (names : List String) :
    List String → Except QueryError (List String)
  | [] => .ok names
  | column :: rest => do
    let field ← schema.column column
    require (field.dataType.isScalar = true) (.nonScalarGroupColumn column)
    require (column ∉ names) (.duplicateGroupColumn column)
    schema.validateGroupColumns (column :: names) rest

/-- The aggregates of `validate_group_by`. -/
def validateAggregates (schema : DatasetSchema) (names : List String) :
    List Aggregate → Except QueryError (List AggregateOutput)
  | [] => .ok []
  | aggregate :: rest => do
    validateUserColumnName aggregate.aliasName
    require (aggregate.aliasName ∉ names) (.duplicateAggregateAlias aggregate.aliasName)
    let input ← schema.column aggregate.column
    let dataType ← orElse (aggregate.function.outputType input.dataType)
      (.validation (.invalidAggregateType aggregate.column aggregate.function input.dataType))
    let outputs ← schema.validateAggregates (aggregate.aliasName :: names) rest
    return ⟨aggregate.aliasName, dataType⟩ :: outputs

/-- `validate_group_by`: the output of every aggregate. -/
def validateGroupBy (schema : DatasetSchema) (request : GroupByRequest) :
    Except QueryError (List AggregateOutput) := do
  require (request.groupBy ≠ []) .emptyGroupBy
  let names ← schema.validateGroupColumns [] request.groupBy
  schema.validateFilter? request.filter
  schema.validateAggregates names request.aggregates

/-- `validate_row_lookup`. -/
def validateRowLookup (schema : DatasetSchema) (request : RowLookupRequest) :
    Except QueryError (List String) :=
  schema.validateProjection request.projection

end DatasetSchema

namespace GroupByResult

/-- The group names of `GroupByResult::new`. -/
def checkNames (names : List String) : List String → Except QueryError (List String)
  | [] => .ok names
  | name :: rest => do
    validateUserColumnName name
    require (name ∉ names) (.duplicateGroupColumn name)
    checkNames (name :: names) rest

/-- The outputs of `GroupByResult::new`. -/
def checkOutputs (names : List String) : List AggregateOutput → Except QueryError Unit
  | [] => .ok ()
  | output :: rest => do
    validateUserColumnName output.aliasName
    require (output.aliasName ∉ names) (.duplicateAggregateAlias output.aliasName)
    require (output.dataType ∈ [.int64, .uint64, .float64])
      (.invalidAggregateOutputType output.aliasName output.dataType)
    checkOutputs (output.aliasName :: names) rest

/-- One aggregate value against its output. -/
def checkValue (output : AggregateOutput) (value : ResultValue) : Except QueryError Unit := do
  ensure (¬ (output.dataType = .uint64 ∧ value = .null))
    (.execution (.nullCountAggregate output.aliasName))
  match value.logicalType with
  | some actual =>
    ensure (actual = output.dataType)
      (.execution (.aggregateResultTypeMismatch output.aliasName output.dataType actual))
  | none => .ok ()

/-- One row of `GroupByResult::new`. -/
def checkRow (groupBy : List String) (aggregates : List AggregateOutput)
    (indexed : GroupedRow × ℕ) : Except QueryError Unit := do
  let (row, index) := indexed
  ensure (row.keys.length = groupBy.length ∧ row.aggregates.length = aggregates.length)
    (.execution (.groupResultShape index groupBy.length row.keys.length aggregates.length
      row.aggregates.length))
  ensure (row.keys.any ResultValue.isVector = false) (.execution (.nonScalarGroupResult index))
  (aggregates.zip row.aggregates).forM fun p => checkValue p.1 p.2

/-- `GroupByResult::new`. -/
def new (groupBy : List String) (aggregates : List AggregateOutput) (rows : List GroupedRow) :
    Except QueryError GroupByResult := do
  let names ← checkNames [] groupBy
  checkOutputs names aggregates
  rows.zipIdx.forM (checkRow groupBy aggregates)
  return ⟨groupBy, aggregates, rows⟩

end GroupByResult

/-! ### What validation guarantees -/

/-- A property of all comparisons. -/
def FilterExpression.All (p : Comparison → Prop) : FilterExpression → Prop
  | .compare c => p c
  | .and l r => l.All p ∧ r.All p
  | .or l r => l.All p ∧ r.All p
  | .not e => e.All p

theorem FilterExpression.All.imp (h : ∀ c, p c → q c) (hf : f.All p) : f.All q := by
  induction f with
  | compare c => exact h c hf
  | and l r ihl ihr => exact ⟨ihl hf.1, ihr hf.2⟩
  | or l r ihl ihr => exact ⟨ihl hf.1, ihr hf.2⟩
  | not e ih => exact ih hf

theorem FilterExpression.All.and (hp : f.All p) (hq : f.All q) : f.All fun c => p c ∧ q c := by
  induction f with
  | compare c => exact ⟨hp, hq⟩
  | and l r ihl ihr => exact ⟨ihl hp.1 hq.1, ihr hp.2 hq.2⟩
  | or l r ihl ihr => exact ⟨ihl hp.1 hq.1, ihr hp.2 hq.2⟩
  | not e ih => exact ih hp hq

namespace DatasetSchema

variable {schema : DatasetSchema}

/-- The schema has a column of this name and type. -/
def Has (schema : DatasetSchema) (name : String) (type : LogicalType) : Prop :=
  ∃ c ∈ schema.columns, c.name = name ∧ c.dataType = type

theorem new_eq_ok {columns : List LogicalColumn} (h : new columns = .ok schema) :
    schema.columns = columns := by
  simp only [new, bind_eq_ok, pure_eq_ok] at h
  obtain ⟨_, -, rfl⟩ := h
  rfl

theorem column_eq_ok {name : String} {c : LogicalColumn} (h : schema.column name = .ok c) :
    c ∈ schema.columns ∧ c.name = name := by
  simp only [column, bind_eq_ok, orElse_eq_ok] at h
  obtain ⟨_, -, hfind⟩ := h
  exact ⟨List.mem_of_find?_eq_some hfind, by simpa using List.find?_some hfind⟩

variable {p : Projection} {names : List String} {u : Unit} {outputs : List AggregateOutput}

theorem validateProjection_mem (h : schema.validateProjection p = .ok names) :
    ∀ name ∈ names, ∃ c ∈ schema.columns, c.name = name := by
  have hgo : ∀ {rest seen : List String},
      validateProjection.go schema seen rest = .ok () →
        ∀ name ∈ rest, ∃ c ∈ schema.columns, c.name = name := by
    intro rest
    induction rest with
    | nil => exact fun _ _ hname => absurd hname List.not_mem_nil
    | cons n rest ih =>
      intro seen hgo name hname
      simp only [validateProjection.go, bind_eq_ok] at hgo
      obtain ⟨c, hc, _, -, hrest⟩ := hgo
      rcases List.mem_cons.mp hname with rfl | hname
      · exact ⟨c, column_eq_ok hc⟩
      · exact ih hrest name hname
  cases p with
  | all =>
    cases h
    intro name hname
    obtain ⟨c, hc, rfl⟩ := List.mem_map.mp hname
    exact ⟨c, hc, rfl⟩
  | columns names' =>
    simp only [validateProjection, bind_eq_ok, pure_eq_ok] at h
    obtain ⟨_, hnames, rfl⟩ := h
    exact hgo hnames

theorem validateProjection_nodup (hn : (schema.columns.map LogicalColumn.name).Nodup)
    (h : schema.validateProjection p = .ok names) : names.Nodup := by
  have hgo : ∀ {rest seen : List String}, validateProjection.go schema seen rest = .ok () →
      rest.Nodup ∧ ∀ name ∈ rest, name ∉ seen := by
    intro rest
    induction rest with
    | nil => simp
    | cons n rest ih =>
      intro seen hgo
      simp only [validateProjection.go, bind_eq_ok, require_eq_ok] at hgo
      obtain ⟨_, -, _, hseen, hrest⟩ := hgo
      obtain ⟨hnodup, hnew⟩ := ih hrest
      refine ⟨List.nodup_cons.mpr ⟨fun hmem => hnew n hmem List.mem_cons_self, hnodup⟩, ?_⟩
      rw [List.forall_mem_cons]
      exact ⟨hseen, fun name hname hmem => hnew name hname (List.mem_cons_of_mem _ hmem)⟩
  cases p with
  | all =>
    cases h
    exact hn
  | columns names' =>
    simp only [validateProjection, bind_eq_ok, pure_eq_ok] at h
    obtain ⟨_, hnames, rfl⟩ := h
    exact (hgo hnames).1

theorem validateComparison_eq_ok {c : Comparison} (h : schema.validateComparison c = .ok u) :
    schema.Has c.column c.value.logicalType := by
  simp only [validateComparison, bind_eq_ok, require_eq_ok] at h
  obtain ⟨field, hfield, _, -, _, htype, -⟩ := h
  obtain ⟨hmem, hname⟩ := column_eq_ok hfield
  exact ⟨field, hmem, hname, htype⟩

theorem validateFilter_eq_ok {f : FilterExpression} (h : schema.validateFilter f = .ok u) :
    f.All fun c => schema.Has c.column c.value.logicalType := by
  induction f generalizing u with
  | compare c => exact validateComparison_eq_ok h
  | and l r ihl ihr =>
    obtain ⟨_, hl, hr⟩ := bind_eq_ok.mp h
    exact ⟨ihl hl, ihr hr⟩
  | or l r ihl ihr =>
    obtain ⟨_, hl, hr⟩ := bind_eq_ok.mp h
    exact ⟨ihl hl, ihr hr⟩
  | not e ih => exact ih h

theorem validateFilter?_eq_ok {filter : Option FilterExpression}
    (h : schema.validateFilter? filter = .ok u) :
    ∀ f ∈ filter, f.All fun c => schema.Has c.column c.value.logicalType := by
  rintro f rfl
  exact validateFilter_eq_ok h

/-- Validated group columns are scalar, and their names pass the check of the result. -/
theorem validateGroupColumns_eq_ok {columns names' : List String}
    (h : schema.validateGroupColumns names columns = .ok names') :
    (∀ c ∈ columns, ∃ t, schema.Has c t ∧ t.isScalar = true) ∧
      GroupByResult.checkNames names columns = .ok names' := by
  induction columns generalizing names with
  | nil => exact ⟨by simp, h⟩
  | cons c columns ih =>
    simp only [validateGroupColumns, bind_eq_ok, require_eq_ok] at h
    obtain ⟨field, hfield, _, hscalar, _, hnew, hrest⟩ := h
    obtain ⟨hall, hcheck⟩ := ih hrest
    obtain ⟨hmem, hname⟩ := column_eq_ok hfield
    simp only [column, bind_eq_ok] at hfield
    obtain ⟨_, huser, -⟩ := hfield
    refine ⟨List.forall_mem_cons.mpr ⟨⟨_, ⟨field, hmem, hname, rfl⟩, hscalar⟩, hall⟩, ?_⟩
    rw [GroupByResult.checkNames, huser, ok_bind, require, ensure_of _ hnew, ok_bind, hcheck]

/-- Validated aggregates take the columns they are given, and their outputs pass the
check of the result. -/
theorem validateAggregates_eq_ok {aggregates : List Aggregate}
    (h : schema.validateAggregates names aggregates = .ok outputs) :
    List.Forall₂ (fun a o => o.aliasName = a.aliasName ∧
        ∃ t, schema.Has a.column t ∧ a.function.outputType t = some o.dataType)
      aggregates outputs ∧ GroupByResult.checkOutputs names outputs = .ok () := by
  induction aggregates generalizing names outputs with
  | nil =>
    cases h
    exact ⟨.nil, rfl⟩
  | cons a aggregates ih =>
    simp only [validateAggregates, bind_eq_ok, require_eq_ok, orElse_eq_ok, pure_eq_ok] at h
    obtain ⟨_, huser, _, hnew, input, hinput, dataType, htype, outputs, hrest, rfl⟩ := h
    obtain ⟨hall, hcheck⟩ := ih hrest
    obtain ⟨hmem, hname⟩ := column_eq_ok hinput
    have houtput : dataType ∈ [LogicalType.int64, .uint64, .float64] := by
      revert htype
      cases a.function <;> cases input.dataType <;>
        simp [AggregateFunction.outputType, LogicalType.isScalar, LogicalType.isNumeric] <;>
        rintro rfl <;> simp
    refine ⟨.cons ⟨rfl, _, ⟨input, hmem, hname, rfl⟩, htype⟩ hall, ?_⟩
    rw [GroupByResult.checkOutputs, huser, ok_bind, require, ensure_of _ hnew, ok_bind, require,
      ensure_of _ houtput, ok_bind, hcheck]

/-- What a validated group-by request guarantees. -/
structure GroupByValid (schema : DatasetSchema) (request : GroupByRequest)
    (outputs : List AggregateOutput) : Prop where
  keys : ∀ c ∈ request.groupBy, ∃ t, schema.Has c t ∧ t.isScalar = true
  filter : ∀ f ∈ request.filter, f.All fun c => schema.Has c.column c.value.logicalType
  aggregates : List.Forall₂ (fun a o => o.aliasName = a.aliasName ∧
    ∃ t, schema.Has a.column t ∧ a.function.outputType t = some o.dataType)
    request.aggregates outputs
  names : ∃ names, GroupByResult.checkNames [] request.groupBy = .ok names ∧
    GroupByResult.checkOutputs names outputs = .ok ()

theorem validateGroupBy_eq_ok {request : GroupByRequest}
    (h : schema.validateGroupBy request = .ok outputs) : schema.GroupByValid request outputs := by
  simp only [validateGroupBy, bind_eq_ok, require_eq_ok] at h
  obtain ⟨_, -, names, hcolumns, _, hfilter, haggregates⟩ := h
  obtain ⟨hkeys, hnames⟩ := validateGroupColumns_eq_ok hcolumns
  obtain ⟨hall, houtputs⟩ := validateAggregates_eq_ok haggregates
  exact ⟨hkeys, validateFilter?_eq_ok hfilter, hall, names, hnames, houtputs⟩

end DatasetSchema

end StrataDB.Txn
