import StrataDB.Index.SegmentSet
import StrataDB.Txn.ScanQuery

/-! Vector search (`vector_search_query` in `txn/src/snapshot.rs`, the contract in
`txn/src/query.rs`): a filter is resolved to a set of row ids first, the segments are
searched for visible rows of that set, and every hit may be looked up in the same
snapshot. -/

namespace StrataDB.Txn

open Lib Arrow Index Storage Query

/-! ### Requests and results -/

inductive VectorHydration
  | notRequested
  | projection (projection : Projection)
  deriving DecidableEq

structure VectorSearchRequest where
  vectorColumn : String
  query : Vector
  k : ℕ
  filter : Option FilterExpression
  hydration : VectorHydration
  deriving DecidableEq

inductive HydrationError
  | notFound
  | tombstoned
  | vectorUnavailable
  | integrityFailure (message : String)
  deriving DecidableEq

inductive VectorHydrationState
  | notRequested
  | hydrated (row : ProjectedRow)
  | unresolved (error : HydrationError)
  deriving DecidableEq

structure VectorHit where
  rowId : ℕ
  squaredL2Distance : F32
  hydration : VectorHydrationState
  deriving DecidableEq

structure VectorSearchResult where
  requestedK : ℕ
  hydrationProjection : Option (List String)
  hits : List VectorHit
  deriving DecidableEq

/-- The dimensions of a vector type. -/
def LogicalType.dimensions? : LogicalType → Option ℕ
  | .vector dimensions => some dimensions
  | _ => none

/-- `validate_vector_search`: the columns of the hydration, if it is asked for. -/
def DatasetSchema.validateVectorSearch (schema : DatasetSchema) (request : VectorSearchRequest) :
    Except QueryError (Option (List String)) := do
  require (request.k ≠ 0) .invalidVectorK
  require (request.vectorColumn = vectorColumn) (.unsupportedVectorColumn request.vectorColumn)
  let field ← schema.column request.vectorColumn
  let dimensions ← orElse field.dataType.dimensions?
    (.validation (.notVectorColumn request.vectorColumn field.dataType))
  require (request.query.all Binary.isFinite = true)
    (.nonFiniteVectorComponent (request.query.findIdx fun x => !x.isFinite))
  require (request.query.length = dimensions)
    (.vectorDimensionMismatch dimensions request.query.length)
  schema.validateFilter? request.filter
  match request.hydration with
  | .notRequested => return none
  | .projection projection => return some (← schema.validateProjection projection)

/-! ### The checks on a result -/

/-- By distance in the total order of floats, then by row id. -/
def ranksBefore (a b : ℕ × F32) : Bool :=
  nearer a.2 b.2 || (a.2.totalKey = b.2.totalKey && decide (a.1 < b.1))

/-- The hydration of one hit against what was asked for. -/
def checkHydration (projection : Option (List String)) (hit : VectorHit) :
    Except QueryError Unit :=
  match projection, hit.hydration with
  | none, .notRequested => .ok ()
  | some _, .unresolved _ => .ok ()
  | none, _ => .error (.execution (.unexpectedHydration hit.rowId))
  | some _, .notRequested => .error (.execution (.missingHydration hit.rowId))
  | some names, .hydrated row =>
    let actual := row.fields.map ProjectedField.name
    ensure (actual = names) (.execution (.hydrationProjectionMismatch hit.rowId names actual))

/-- The loop of `VectorSearchResult::new`. -/
def checkHits (projection : Option (List String)) :
    Option (ℕ × F32) → List VectorHit → Except QueryError Unit
  | _, [] => .ok ()
  | previous, hit :: rest => do
    ensure (hit.squaredL2Distance.isFinite = true)
      (.execution (.nonFiniteVectorDistance hit.rowId))
    ensure (Binary.lt hit.squaredL2Distance (Binary.zero 8 23) = false)
      (.execution (.negativeVectorDistance hit.rowId))
    ensure (previous.all (fun p => !ranksBefore (hit.rowId, hit.squaredL2Distance) p) = true)
      (.execution (.nonMonotonicVectorDistances ((previous.map Prod.fst).getD 0) hit.rowId))
    checkHydration projection hit
    checkHits projection (some (hit.rowId, hit.squaredL2Distance)) rest

/-- `VectorSearchResult::new`. -/
def VectorSearchResult.new (requestedK : ℕ) (hydrationProjection : Option (List String))
    (hits : List VectorHit) : Except QueryError VectorSearchResult := do
  ensure (hits.length ≤ requestedK) (.execution (.tooManyVectorHits requestedK hits.length))
  checkHits hydrationProjection none hits
  return ⟨requestedK, hydrationProjection, hits⟩

/-! ### The query -/

/-- `EF_SEARCH_DEFAULT`: the width of the beam in every segment. -/
def efSearchDefault : ℕ := 32

/-- `zone_map_permits_scan` for the pruning predicate of a filter. -/
def zoneMapPermits (filter : FilterExpression) (zoneMap : Stats) : Bool :=
  (filterExpressionPruningPredicate filter).all (shouldScanFile zoneMap)

namespace Snapshot

variable (P : Platform) (D : Distances) (s : Snapshot) (store : Store)
  (request : VectorSearchRequest)

/-- The rows that the segments have found, where a filter leaves out the segments whose
zone maps do not permit it. None if a search does not end. -/
def vectorMatches (permits : FilterExpression → Stats → Bool) :
    Option (Except QueryError (List VectorMatch)) :=
  match request.filter with
  | some filter =>
    match s.vectorFilterLiveSet P store filter with
    | .error e => some (.error e)
    | .ok live =>
      (fanOut D request.query request.k efSearchDefault
        (fun id => live.contains id && s.isVisible id) (permits filter) s.index).map
        fun found => engine (lift .index found)
  | none =>
    (fanOut D request.query request.k efSearchDefault s.isVisible (fun _ => true) s.index).map
      fun found => engine (lift .index found)

/-- What is known of a matching row: nothing if it is not asked for. -/
def hydrate (projection : Option (List String)) (rowId : ℕ) :
    Except QueryError VectorHydrationState :=
  match projection with
  | none => .ok .notRequested
  | some names => do
    let result ← s.lookupRow P store ⟨rowId, .columns names⟩
    match result.outcome with
    | .live row => return .hydrated row
    | .tombstoned => return .unresolved .tombstoned
    | .notFound => return .unresolved .notFound

/-- The matches in their final order. -/
def sortMatches (found : List VectorMatch) : List VectorMatch :=
  found.mergeSort fun a b =>
    !ranksBefore (b.rowId, b.squaredDistance) (a.rowId, a.squaredDistance)

/-- The second half of `vector_search_query`: matches become hits. -/
def vectorHits (projection : Option (List String)) (found : List VectorMatch) :
    Except QueryError VectorSearchResult := do
  let hits ← (sortMatches found).mapM fun m => do
    return VectorHit.mk m.rowId m.squaredDistance (← s.hydrate P store projection m.rowId)
  VectorSearchResult.new request.k projection hits

/-- A vector search that asks a given test which segments to read. -/
def vectorSearchWith (permits : FilterExpression → Stats → Bool) :
    Option (Except QueryError VectorSearchResult) :=
  match (do let schema ← s.querySchema; schema.validateVectorSearch request) with
  | .error e => some (.error e)
  | .ok projection =>
    (s.vectorMatches P D store request permits).map fun found => do
      let found ← found
      s.vectorHits P store request projection found

/-- `Snapshot::vector_search_query`. -/
def vectorSearchQuery : Option (Except QueryError VectorSearchResult) :=
  s.vectorSearchWith P D store request zoneMapPermits

end Snapshot

end StrataDB.Txn
