import StrataDB.Query.PredicateKey
import StrataDB.Txn.LiveSetCache
import StrataDB.Txn.ScanQuery

/-! The live-set cache of a snapshot (`resolve_live_set` and
`resolve_filter_live_set` in `txn/src/snapshot.rs`, `txn/src/filter_key.rs`): a
predicate and a filter expression are known to it by their keys. -/

namespace StrataDB.Txn

open Lib Arrow Index Storage Query

/-- `Literal`. -/
inductive KeyLiteral
  | boolean (value : Bool)
  | int64 (value : ℤ)
  | uint64 (value : ℕ)
  | float64 (bits : ℕ)
  | utf8 (value : String)
  deriving DecidableEq

def KeyLiteral.ofLiteral : FilterLiteral → KeyLiteral
  | .boolean v => .boolean v
  | .int64 v => .int64 v
  | .uint64 v => .uint64 v
  | .float64 v => .float64 v.toBits
  | .utf8 v => .utf8 v

def KeyLiteral.byteSize : KeyLiteral → ℕ
  | .utf8 v => v.utf8ByteSize
  | .boolean _ | .int64 _ | .uint64 _ | .float64 _ => 0

/-- `FilterKey`; a comparison has the number of its operator. -/
inductive FilterKey
  | compare (operator : ℕ) (column : String) (value : KeyLiteral)
  | and (left right : FilterKey)
  | or (left right : FilterKey)
  | not (inner : FilterKey)
  deriving DecidableEq

namespace FilterKey

/-- `NODE_OVERHEAD_BYTES`. -/
def nodeOverheadBytes : ℕ := 128

def comparisonOperator : ComparisonOperator → ℕ
  | .equal => 0
  | .notEqual => 1
  | .lessThan => 2
  | .lessThanOrEqual => 3
  | .greaterThan => 4
  | .greaterThanOrEqual => 5

def variableByteSize : FilterKey → ℕ
  | .compare _ column value => column.utf8ByteSize + value.byteSize
  | .and l r | .or l r => nodeOverheadBytes + l.variableByteSize + r.variableByteSize
  | .not inner => nodeOverheadBytes + inner.variableByteSize

def ofFilter : FilterExpression → FilterKey
  | .compare c => .compare (comparisonOperator c.operator) c.column (.ofLiteral c.value)
  | .and l r => .and (ofFilter l) (ofFilter r)
  | .or l r => .or (ofFilter l) (ofFilter r)
  | .not inner => .not (ofFilter inner)

end FilterKey

theorem KeyLiteral.ofLiteral_injective : Function.Injective KeyLiteral.ofLiteral := by
  intro v w h
  cases v <;> cases w <;> simp only [ofLiteral, reduceCtorEq] at h
  case boolean.boolean a b => rw [KeyLiteral.boolean.inj h]
  case int64.int64 a b => rw [KeyLiteral.int64.inj h]
  case uint64.uint64 a b => rw [KeyLiteral.uint64.inj h]
  case float64.float64 a b => rw [Binary.toBits_injective (KeyLiteral.float64.inj h)]
  case utf8.utf8 a b => rw [KeyLiteral.utf8.inj h]

theorem FilterKey.comparisonOperator_injective : Function.Injective comparisonOperator := by
  intro a b h
  cases a <;> cases b <;> first | rfl | cases h

theorem FilterKey.ofFilter_injective : Function.Injective ofFilter := by
  intro f
  induction f with
  | compare c =>
    intro g h
    cases g <;> simp only [ofFilter, reduceCtorEq, compare.injEq] at h
    next c' =>
      obtain ⟨hoperator, hcolumn, hvalue⟩ := h
      cases c
      cases c'
      cases comparisonOperator_injective hoperator
      cases hcolumn
      cases KeyLiteral.ofLiteral_injective hvalue
      rfl
  | and l r ihl ihr | or l r ihl ihr =>
    intro g h
    cases g <;> simp only [ofFilter, reduceCtorEq, and.injEq, or.injEq] at h
    rw [ihl h.1, ihr h.2]
  | not inner ih =>
    intro g h
    cases g <;> simp only [ofFilter, reduceCtorEq, not.injEq] at h
    rw [ih h]

/-- What a live set is asked for: an untyped predicate or a filter expression. -/
inductive LiveSetRequest
  | predicate (predicate : Predicate)
  | filter (filter : FilterExpression)

inductive LiveSetCacheKey
  | predicate (key : PredicateKey)
  | filter (key : FilterKey)
  deriving DecidableEq

/-- `ENTRY_OVERHEAD_BYTES`. -/
def entryOverheadBytes : ℕ := 256

def LiveSetCacheKey.variableByteSize : LiveSetCacheKey → ℕ
  | .predicate key => key.variableByteSize
  | .filter key => key.variableByteSize

def LiveSetRequest.key : LiveSetRequest → LiveSetCacheKey
  | .predicate p => .predicate (.ofPredicate p)
  | .filter f => .filter (.ofFilter f)

theorem LiveSetRequest.key_injective : Function.Injective LiveSetRequest.key := by
  intro r r' h
  cases r <;> cases r' <;>
    simp only [key, reduceCtorEq, LiveSetCacheKey.predicate.injEq,
      LiveSetCacheKey.filter.injEq] at h
  · rw [PredicateKey.ofPredicate_injective h]
  · rw [FilterKey.ofFilter_injective h]

namespace Snapshot

/-- `row_ids_matching`: the ids of the rows the predicate selects, from its own
columns and the hidden one. -/
def rowIdsMatching (s : Snapshot) (store : Store) (predicate : Predicate) :
    Except TxnError (List ℕ) := do
  let projection := ((predicate.columns ++ [rowIdColumn]).mergeSort
    fun a b => decide (a ≤ b)).destutter (· ≠ ·)
  let perFileIds ← s.readSurvivingFiles store (some predicate) (some projection) fun batch => do
    let selection ← lift .arrow (mask batch predicate)
    let rowIds ← typedColumn batch rowIdColumn .uint64 (missingField rowIdColumn)
      (.arrow (.castError "_row_id column must be UInt64"))
    return ((rowIds.zip selection).filter fun p => p.2 = some true).map
      fun p => Cell.toRowId p.1
  return perFileIds.flatten

/-- What the closures of `resolve_live_set` and `resolve_filter_live_set` compute,
each with its own type of error. -/
def computeLiveSet (P : Platform) (s : Snapshot) (store : Store) :
    LiveSetRequest → Except (TxnError ⊕ QueryError) LiveSet
  | .predicate p => ((s.rowIdsMatching store p).map LiveSet.fromRowIds).mapError .inl
  | .filter f => (s.vectorFilterLiveSet P store f).mapError .inr

/-- The cache of a snapshot. -/
def liveSetCache (P : Platform) (s : Snapshot) (store : Store) (byteBudget : ℕ) :
    LiveSetCache.Params LiveSetRequest LiveSetCacheKey LiveSet (TxnError ⊕ QueryError) where
  key := LiveSetRequest.key
  compute := s.computeLiveSet P store
  entryCharge key := entryOverheadBytes + key.variableByteSize
  byteSize := LiveSet.byteSize
  byteBudget

end Snapshot

open LiveSetCache in
/-- Under every interleaving of calls whose closures depend on the key only, the
cache is transparent and keeps its account. A snapshot's closures are such: what
requests with one slot compute is the same. -/
theorem live_set_cache_transparent {ι ρ κ β ε : Type} [DecidableEq ι] [Fintype ι]
    [DecidableEq κ] (C : Params ρ κ β ε)
    (hkey : ∀ r r', C.key r = C.key r' → C.compute r = C.compute r') :
    (∀ s : Cache ι ρ κ β ε, (system ι C).Reachable s → s.Transparent C) ∧
    ∀ (P : Platform) (snapshot : Snapshot) (store : Store) (byteBudget : ℕ)
      (s : Cache ι LiveSetRequest LiveSetCacheKey LiveSet (TxnError ⊕ QueryError)),
      (system ι (snapshot.liveSetCache P store byteBudget)).Reachable s →
        s.Transparent (snapshot.liveSetCache P store byteBudget) ∧
        ∀ r r' id, (r.key, id) ∈ s.slots → (r'.key, id) ∈ s.slots →
          snapshot.computeLiveSet P store r = snapshot.computeLiveSet P store r' := by
  refine ⟨fun s hs => Cache.transparent_of_reachable hkey hs,
    fun P snapshot store byteBudget s hs => ?_⟩
  have hsame : ∀ r r', LiveSetRequest.key r = r'.key →
      snapshot.computeLiveSet P store r = snapshot.computeLiveSet P store r' := by
    intro r r' h
    rw [LiveSetRequest.key_injective h]
  have htransparent := Cache.transparent_of_reachable hsame hs
  exact ⟨htransparent, fun r r' id hr hr' => hsame r r' (htransparent.shared r r' id hr hr')⟩

/-- A cache of numbers: zero fails, the entry of a number is charged ten. -/
def numberCache : LiveSetCache.Params ℕ ℕ ℕ Unit where
  key := id
  compute r := if r = 0 then .error () else .ok r
  entryCharge _ := 10
  byteSize := id
  byteBudget := 40

/-- The payload of the second call does not fit next to the first. -/
def evictionLabels : List (LiveSetCache.Label (Fin 2) ℕ Unit) :=
  .call 0 7 :: List.replicate 8 (.advance 0 none) ++
    .call 1 20 :: List.replicate 11 (.advance 1 none) ++
    .advance 0 none :: [.finish 0]

open LiveSetCache in
theorem live_set_cache_transparent_eviction :
    ∃ s : Cache (Fin 2) ℕ ℕ ℕ Unit,
      (system (Fin 2) numberCache).run .new evictionLabels = some s ∧
      s.calls 1 = some ⟨20, .done (.ok 20)⟩ ∧ s.slots = [(7, 0)] ∧ s.bytes = 17 ∧
      numberCache.compute 20 = .ok 20 := by
  obtain ⟨s, hs, hcall, hslots, hbytes⟩ : ∃ s : Cache (Fin 2) ℕ ℕ ℕ Unit,
      (system (Fin 2) numberCache).run .new evictionLabels = some s ∧
        s.calls 1 = some ⟨20, .done (.ok 20)⟩ ∧ s.slots = [(7, 0)] ∧ s.bytes = 17 :=
    ⟨_, rfl, rfl, rfl, rfl⟩
  have hreach : (system (Fin 2) numberCache).Reachable s :=
    (TransitionSystem.Reachable.init rfl).run hs
  have htransparent := (live_set_cache_transparent numberCache fun r r' h => by
    cases h
    rfl).1 s hreach
  exact ⟨s, hs, hcall, hslots, hbytes, htransparent.result 1 20 20 hcall⟩

end StrataDB.Txn
