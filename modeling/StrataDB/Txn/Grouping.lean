import Mathlib.Algebra.Order.BigOperators.Group.List
import StrataDB.Txn.Aggregating

/-! The groups of rows. For rows whose columns have the types the request needs, the
row loop and the merge loop both compute one state for each key, in the order in which
the keys first appear, from the values of the rows with that key, and both report the
first integer sum on their way that does not fit. -/

namespace StrataDB.Txn

open Lib Arrow Index Storage

/-! ### Keys and values of a row -/

/-- The value of a column of a row; null where it has none. -/
def valueOf (schema : Schema) (r : Row) (column : String) : ResultValue :=
  (columnValue schema r column).toOption.getD .null

def GroupKeyValue.value : GroupKeyValue → ResultValue
  | .null => .null
  | .boolean v => .boolean v
  | .int64 v => .int64 v
  | .uint64 v => .uint64 v
  | .float64 v => .float64 v
  | .utf8 v => .utf8 v

/-- The key of a scalar value. -/
def GroupKeyValue.ofScalar : ResultValue → GroupKeyValue
  | .boolean v => .boolean v
  | .int64 v => .int64 v
  | .uint64 v => .uint64 v
  | .float64 v => .float64 v
  | .utf8 v => .utf8 v
  | _ => .null

theorem GroupKeyValue.new_value (k : GroupKeyValue) : GroupKeyValue.new k.value = .ok k := by
  cases k <;> rfl

theorem GroupKeyValue.value_ofScalar {v : ResultValue} (h : v.isVector = false) :
    (GroupKeyValue.ofScalar v).value = v := by
  cases v <;> first | rfl | cases h

/-- The values a key was made of. -/
def GroupKey.values (k : GroupKey) : List ResultValue := k.parts.map GroupKeyValue.value

theorem GroupKey.new_values (k : GroupKey) : GroupKey.new k.values = .ok k := by
  have hparts : k.parts.mapM (fun v => GroupKeyValue.new v.value) = .ok k.parts := by
    rw [mapM_ok_of_forall fun v _ => GroupKeyValue.new_value v, List.map_id']
  rw [GroupKey.new, GroupKey.values, List.mapM_map]
  exact congrArg (· >>= _) hparts

/-- The key of a row. -/
def rowKey (schema : Schema) (request : GroupByRequest) (r : Row) : GroupKey :=
  ⟨request.groupBy.map fun column => .ofScalar (valueOf schema r column)⟩

/-- The values of a column in the rows of one key. -/
def groupValues (schema : Schema) (request : GroupByRequest) (column : String) (k : GroupKey)
    (rows : List Row) : List ResultValue :=
  (rows.filter (rowKey schema request · = k)).map (valueOf schema · column)

/-- The rows have the columns of a request at the types it needs: scalars as keys and
what each aggregate takes as its input. -/
structure RowsTyped (schema : Schema) (request : GroupByRequest)
    (pairs : List (Aggregate × AggregateState)) (rows : List Row) : Prop where
  key : ∀ r ∈ rows, ∀ column ∈ request.groupBy,
    columnValue schema r column = .ok (valueOf schema r column) ∧
      (valueOf schema r column).isVector = false
  input : ∀ r ∈ rows, ∀ p ∈ pairs,
    columnValue schema r p.1.column = .ok (valueOf schema r p.1.column) ∧
      p.2.Takes (valueOf schema r p.1.column)

theorem RowsTyped.mono {schema : Schema} {request : GroupByRequest}
    {pairs : List (Aggregate × AggregateState)} {rows rows' : List Row}
    (h : RowsTyped schema request pairs rows) (hsub : rows' ⊆ rows) :
    RowsTyped schema request pairs rows' :=
  ⟨fun r hr => h.key r (hsub hr), fun r hr => h.input r (hsub hr)⟩

section

variable {F : FloatOps} {request : GroupByRequest} {templates : List AggregateState}
  {schema : Schema} {pairs : List (Aggregate × AggregateState)} {rows : List Row}

/-- The group of a key after these rows. -/
def groupOf (schema : Schema) (request : GroupByRequest)
    (pairs : List (Aggregate × AggregateState)) (k : GroupKey) (rows : List Row) : GroupState :=
  ⟨k.values, pairs.map fun p => p.2.exact (groupValues schema request p.1.column k rows)⟩

/-- All groups of the rows. -/
def groupsOf (schema : Schema) (request : GroupByRequest)
    (pairs : List (Aggregate × AggregateState)) (rows : List Row) : Groups :=
  (firsts (rows.map (rowKey schema request))).map fun k =>
    (k, groupOf schema request pairs k rows)

/-! ### Which sums are on the way -/

/-- The first of the aggregates that does not fit for the rows of a key. -/
def keyOverflow (schema : Schema) (request : GroupByRequest)
    (pairs : List (Aggregate × AggregateState)) (k : GroupKey) (rows : List Row) :
    Option QueryError :=
  pairs.findSome? fun p =>
    p.2.overflow p.1.aliasName (groupValues schema request p.1.column k rows)

/-- Row after row, the running sums of its key. -/
def rowsOverflow (schema : Schema) (request : GroupByRequest)
    (pairs : List (Aggregate × AggregateState)) (rows : List Row) : Option QueryError :=
  rows.inits.findSome? fun rs =>
    rs.getLast?.bind fun r => keyOverflow schema request pairs (rowKey schema request r) rs

/-- File after file, the sums inside it, and then for each of its keys the sums over the
files up to it. -/
def filesOverflow (schema : Schema) (request : GroupByRequest)
    (pairs : List (Aggregate × AggregateState)) (before : List Row) :
    List (List Row) → Option QueryError
  | [] => none
  | rows :: files =>
    ((rowsOverflow schema request pairs rows).or
      ((firsts (rows.map (rowKey schema request))).findSome? fun k =>
        keyOverflow schema request pairs k (before ++ rows))).or
      (filesOverflow schema request pairs (before ++ rows) files)

variable {k : GroupKey} {r : Row} {column : String} {before : List Row}

theorem groupValues_append (column : String) (k : GroupKey) (before rows : List Row) :
    groupValues schema request column k (before ++ rows) =
      groupValues schema request column k before ++ groupValues schema request column k rows := by
  rw [groupValues, List.filter_append, List.map_append]
  rfl

theorem groupValues_eq_nil (h : k ∉ rows.map (rowKey schema request)) :
    groupValues schema request column k rows = [] := by
  rw [groupValues, List.map_eq_nil_iff, List.filter_eq_nil_iff]
  exact fun r hr hk => h (List.mem_map.mpr ⟨r, hr, by simpa using hk⟩)

theorem length_groupValues_le :
    (groupValues schema request column k rows).length ≤ rows.length := by
  rw [groupValues, List.length_map]
  exact List.length_filter_le _ _

theorem groupOf_append_of_notMem (h : k ∉ rows.map (rowKey schema request)) :
    groupOf schema request pairs k (before ++ rows) = groupOf schema request pairs k before := by
  simp only [groupOf, groupValues_append, groupValues_eq_nil h, List.append_nil]

theorem groupOf_of_notMem (hexact : ∀ p ∈ pairs, p.2.IsExact)
    (h : k ∉ rows.map (rowKey schema request)) :
    groupOf schema request pairs k rows = ⟨k.values, pairs.map Prod.snd⟩ := by
  refine congrArg (GroupState.mk _) (List.map_congr_left fun p hp => ?_)
  rw [groupValues_eq_nil h, (hexact p hp).exact_nil]

theorem keyOverflow_append_of_notMem (h : k ∉ rows.map (rowKey schema request)) :
    keyOverflow schema request pairs k (before ++ rows) =
      keyOverflow schema request pairs k before := by
  simp only [keyOverflow, groupValues_append, groupValues_eq_nil h, List.append_nil]

theorem keyOverflow_nil (k : GroupKey) : keyOverflow schema request pairs k [] = none := by
  rw [keyOverflow, List.findSome?_eq_none_iff]
  exact fun p _ => AggregateState.overflow_nil _ _

theorem rowsOverflow_concat (rows : List Row) (r : Row) :
    rowsOverflow schema request pairs (rows ++ [r]) =
      (rowsOverflow schema request pairs rows).or
        (keyOverflow schema request pairs (rowKey schema request r) (rows ++ [r])) := by
  simp [rowsOverflow, List.inits_append, List.findSome?_append]

theorem keyOverflow_of_rowsOverflow (h : rowsOverflow schema request pairs rows = none)
    (k : GroupKey) : keyOverflow schema request pairs k rows = none := by
  induction rows using List.reverseRecOn with
  | nil => exact keyOverflow_nil k
  | append_singleton rows r ih =>
    rw [rowsOverflow_concat, Option.or_eq_none_iff] at h
    by_cases hk : k = rowKey schema request r
    · rw [hk]
      exact h.2
    · rw [keyOverflow_append_of_notMem (by simpa using hk)]
      exact ih h.1

theorem overflow_of_keyOverflow (h : keyOverflow schema request pairs k rows = none)
    {p : Aggregate × AggregateState} (hp : p ∈ pairs) :
    p.2.overflow p.1.aliasName (groupValues schema request p.1.column k rows) = none :=
  List.findSome?_eq_none_iff.mp h p hp

theorem filesOverflow_singleton (rows : List Row) :
    filesOverflow schema request pairs [] [rows] = rowsOverflow schema request pairs rows := by
  rw [filesOverflow, filesOverflow, Option.or_none, List.nil_append]
  cases h : rowsOverflow schema request pairs rows with
  | some e => rfl
  | none =>
    rw [Option.none_or, List.findSome?_eq_none_iff]
    exact fun k _ => keyOverflow_of_rowsOverflow h k

/-! ### The row loop -/

theorem RowsTyped.addRow (h : RowsTyped schema request pairs rows) {r : Row} (hr : r ∈ rows)
    (groups : Groups) :
    addRow F request templates schema groups r =
      upsert groups (rowKey schema request r) ⟨(rowKey schema request r).values, templates⟩
        (updateGroup F request schema r) := by
  have hkeys : request.groupBy.mapM (columnValue schema r) =
      .ok (rowKey schema request r).values := by
    rw [mapM_ok_of_forall fun column hc => (h.key r hr column hc).1, rowKey, GroupKey.values,
      List.map_map]
    refine congrArg Except.ok (List.map_congr_left fun column hc => ?_)
    exact (GroupKeyValue.value_ofScalar (h.key r hr column hc).2).symm
  rw [Txn.addRow, hkeys, engine_ok, ok_bind, GroupKey.new_values, ok_bind]

theorem RowsTyped.updateGroup (h : RowsTyped schema request pairs rows) {r : Row} (hr : r ∈ rows)
    (hpairs : request.aggregates = pairs.map Prod.fst) (keys : List ResultValue)
    (s : Aggregate × AggregateState → AggregateState) :
    updateGroup F request schema r ⟨keys, pairs.map s⟩ =
      (pairs.mapM fun p => (s p).update F p.1.aliasName (valueOf schema r p.1.column)).map
        (GroupState.mk keys) := by
  have hmap : ∀ f : Aggregate × AggregateState → Except QueryError AggregateState,
      (∀ p ∈ pairs,
        f (p.1, s p) = (s p).update F p.1.aliasName (valueOf schema r p.1.column)) →
      (request.aggregates.zip (pairs.map s)).mapM f =
        pairs.mapM fun p => (s p).update F p.1.aliasName (valueOf schema r p.1.column) := by
    intro f hf
    rw [hpairs, List.zip_map', List.mapM_map]
    exact mapM_congr hf
  rw [Txn.updateGroup]
  dsimp only
  rw [hmap]
  · rfl
  · intro p hp
    simp only [(h.input r hr p hp).1, engine_ok, ok_bind]

theorem RowsTyped.groupRows (h : RowsTyped schema request pairs rows)
    (hpairs : request.aggregates = pairs.map Prod.fst) (hexact : ∀ p ∈ pairs, p.2.IsExact)
    (hlen : rows.length < u64Bound) :
    rows.foldlM (Txn.addRow F request (pairs.map Prod.snd) schema) [] =
      report (rowsOverflow schema request pairs rows) (groupsOf schema request pairs rows) := by
  rw [foldlM_congr fun groups r hr => h.addRow hr groups]
  refine foldlM_upsert (groupOf schema request pairs) _ rfl
    (fun rs r hr => groupOf_of_notMem hexact hr)
    (fun rs r k hk => groupOf_append_of_notMem (by simpa using hk)) fun rs r hrs hnone => ?_
  have hr : r ∈ rows := hrs.subset (by simp)
  have hshort := hrs.length_le.trans_lt hlen
  have hstep : ∀ p ∈ pairs, (p.2.exact (groupValues schema request p.1.column
      (rowKey schema request r) rs)).update F p.1.aliasName (valueOf schema r p.1.column) =
      report (p.2.overflow p.1.aliasName (groupValues schema request p.1.column
          (rowKey schema request r) (rs ++ [r])))
        (p.2.exact (groupValues schema request p.1.column (rowKey schema request r)
          (rs ++ [r]))) := by
    intro p hp
    have hlast : groupValues schema request p.1.column (rowKey schema request r) [r] =
        [valueOf schema r p.1.column] := by simp [groupValues]
    rw [groupValues_append, hlast]
    refine AggregateState.update_exact (hexact p hp)
      (overflow_of_keyOverflow (keyOverflow_of_rowsOverflow hnone _) hp) (h.input r hr p hp).2 ?_
    have hle : (groupValues schema request p.1.column (rowKey schema request r) rs).length ≤
        rs.length := length_groupValues_le
    rw [List.length_append, List.length_singleton] at hshort
    omega
  rw [groupOf, h.updateGroup hr hpairs, mapM_report hstep, map_report]
  simp only [List.getLast?_concat, Option.bind_some]
  rfl

/-! ### The merge loop -/

theorem mergeGroup_groupOf (groups : Groups) :
    mergeGroup F request templates groups (groupOf schema request pairs k rows) =
      upsert groups k ⟨k.values, templates⟩
        (mergeStates F request (groupOf schema request pairs k rows)) := by
  rw [mergeGroup, show (groupOf schema request pairs k rows).keys = k.values from rfl,
    GroupKey.new_values, ok_bind]

theorem mergeStates_groupOf (hpairs : request.aggregates = pairs.map Prod.fst)
    (hexact : ∀ p ∈ pairs, p.2.IsExact) (hlen : (before ++ rows).length < u64Bound)
    (hbefore : keyOverflow schema request pairs k before = none)
    (hrows : keyOverflow schema request pairs k rows = none) :
    mergeStates F request (groupOf schema request pairs k rows)
        (groupOf schema request pairs k before) =
      report (keyOverflow schema request pairs k (before ++ rows))
        (groupOf schema request pairs k (before ++ rows)) := by
  have hmap : ∀ f : (Aggregate × AggregateState) × AggregateState → Except QueryError AggregateState,
      ((request.aggregates.zip (groupOf schema request pairs k rows).aggregates).zip
        (groupOf schema request pairs k before).aggregates).mapM f = pairs.mapM fun p =>
          f ((p.1, p.2.exact (groupValues schema request p.1.column k rows)),
            p.2.exact (groupValues schema request p.1.column k before)) := by
    intro f
    rw [hpairs, groupOf, groupOf, List.zip_map', List.zip_map', List.mapM_map]
    rfl
  have hstep : ∀ p ∈ pairs, (p.2.exact (groupValues schema request p.1.column k before)).merge F
      p.1.aliasName (p.2.exact (groupValues schema request p.1.column k rows)) =
      report (p.2.overflow p.1.aliasName
          (groupValues schema request p.1.column k (before ++ rows)))
        (p.2.exact (groupValues schema request p.1.column k (before ++ rows))) := by
    intro p hp
    rw [groupValues_append]
    refine AggregateState.merge_exact (hexact p hp) (overflow_of_keyOverflow hbefore hp)
      (overflow_of_keyOverflow hrows hp) ?_
    rw [← List.length_append, ← groupValues_append]
    exact length_groupValues_le.trans_lt hlen
  rw [mergeStates, hmap, mapM_report hstep]
  exact map_report (GroupState.mk k.values)

/-- One file is merged into the groups of those before it. -/
theorem mergeGroups (hpairs : request.aggregates = pairs.map Prod.fst)
    (hexact : ∀ p ∈ pairs, p.2.IsExact) (hlen : (before ++ rows).length < u64Bound)
    (hbefore : ∀ k, keyOverflow schema request pairs k before = none)
    (hrows : ∀ k, keyOverflow schema request pairs k rows = none) :
    ((groupsOf schema request pairs rows).map Prod.snd).foldlM
        (mergeGroup F request (pairs.map Prod.snd)) (groupsOf schema request pairs before) =
      report ((firsts (rows.map (rowKey schema request))).findSome? fun k =>
          keyOverflow schema request pairs k (before ++ rows))
        (groupsOf schema request pairs (before ++ rows)) := by
  rw [groupsOf, groupsOf, List.map_map, List.foldlM_map]
  refine (foldlM_congr (fun groups k _ => mergeGroup_groupOf groups) _).trans ?_
  refine (foldlM_upsert_keys (groupOf schema request pairs · (before ++ rows))
    (keyOverflow schema request pairs · (before ++ rows)) (nodup_firsts _) fun k _ => ?_).trans ?_
  · rw [← mergeStates_groupOf hpairs hexact hlen (hbefore k) (hrows k)]
    split
    · rfl
    · rename_i hk
      rw [groupOf_of_notMem hexact fun h => hk (mem_firsts.mpr h)]
  · have hkeys : (firsts (rows.map (rowKey schema request))).foldl addKey
        (firsts (before.map (rowKey schema request))) =
        firsts ((before ++ rows).map (rowKey schema request)) := by
      rw [List.map_append, ← firsts_append_firsts]
      exact List.foldl_append.symm
    rw [hkeys, groupsOf]
    refine congrArg (report _) (List.map_congr_left fun k _ => Prod.ext rfl ?_)
    dsimp only
    split
    · rfl
    · rename_i hk
      exact (groupOf_append_of_notMem fun h => hk (mem_firsts.mpr h)).symm

theorem groupFiles_report (before : List Row) (hpairs : request.aggregates = pairs.map Prod.fst)
    (hexact : ∀ p ∈ pairs, p.2.IsExact) {files : List (List Row)}
    (htyped : RowsTyped schema request pairs files.flatten)
    (hlen : (before ++ files.flatten).length < u64Bound)
    (hbefore : ∀ k, keyOverflow schema request pairs k before = none) :
    files.foldlM (fun groups rows => do
        let fileGroups ← rows.foldlM (Txn.addRow F request (pairs.map Prod.snd) schema) []
        (fileGroups.map Prod.snd).foldlM (mergeGroup F request (pairs.map Prod.snd)) groups)
        (groupsOf schema request pairs before) =
      report (filesOverflow schema request pairs before files)
        (groupsOf schema request pairs (before ++ files.flatten)) := by
  induction files generalizing before with
  | nil => rw [List.flatten_nil, List.append_nil]; rfl
  | cons rows files ih =>
    rw [List.flatten_cons] at htyped hlen ⊢
    rw [← List.append_assoc] at hlen ⊢
    have hfirst : (before ++ rows).length < u64Bound := by
      rw [List.length_append] at hlen
      omega
    have hrows : rows.length < u64Bound := by
      rw [List.length_append] at hfirst
      omega
    have hfile := report_bind (o := rowsOverflow schema request pairs rows)
      (f := fun fileGroups : Groups => (fileGroups.map Prod.snd).foldlM
        (mergeGroup F request (pairs.map Prod.snd)) (groupsOf schema request pairs before))
      fun hnone => mergeGroups hpairs hexact hfirst hbefore (keyOverflow_of_rowsOverflow hnone)
    rw [List.foldlM_cons, (htyped.mono (List.subset_append_left _ _)).groupRows hpairs hexact hrows,
      hfile]
    refine report_bind fun hnone =>
      ih _ (htyped.mono (List.subset_append_right _ _)) hlen fun k => ?_
    rw [Option.or_eq_none_iff, List.findSome?_eq_none_iff] at hnone
    by_cases hk : k ∈ rows.map (rowKey schema request)
    · exact hnone.2 k (mem_firsts.mpr hk)
    · rw [keyOverflow_append_of_notMem hk]
      exact hbefore k

end

end StrataDB.Txn
