import StrataDB.Txn.Allocation
import StrataDB.Txn.Grouping
import StrataDB.Txn.Overlaying
import StrataDB.Txn.Preserving

/-! Grouped reads of a valid version. A snapshot groups its live rows file by file, a
transaction groups them in one pass; both compute the same groups, unless a sum on the
way of one of them does not fit. -/

namespace StrataDB.Txn

open Lib Arrow Index Storage Query

variable {P : Platform} {F : FloatOps} {s : Snapshot} {cat : Catalog} {store : Store}
  {request : GroupByRequest}

/-! ### Grouping whole rows -/

/-- The merge loop over the rows of files. -/
def groupFiles (F : FloatOps) (request : GroupByRequest) (templates : List AggregateState)
    (schema : Schema) (files : List (List Row)) : Except QueryError Groups :=
  files.foldlM (fun groups rows => do
    let fileGroups ← rows.foldlM (addRow F request templates schema) []
    (fileGroups.map Prod.snd).foldlM (mergeGroup F request templates) groups) []

/-- A group-by request with a given way to group. -/
def Snapshot.answerGroupBy (F : FloatOps) (s : Snapshot) (request : GroupByRequest)
    (group : List AggregateState → Except QueryError Groups) :
    Except QueryError GroupByResult := do
  let schema ← s.querySchema
  let outputs ← schema.validateGroupBy request
  let templates ← aggregateTemplates request outputs
  let groups ← group templates
  GroupByResult.new request.groupBy outputs (groups.map fun p => p.2.row F)

/-- The live rows of every file that satisfy the filter of a request. -/
def Snapshot.groupedFiles (s : Snapshot) (cat : Catalog) (request : GroupByRequest) :
    List (List Row) :=
  cat.files.map fun f =>
    (s.liveBatch f.2).rows.filter (selects (fullSchema s.schema) request.filter)

theorem groupedFiles_flatten (s : Snapshot) (cat : Catalog) (request : GroupByRequest) :
    (s.groupedFiles cat request).flatten =
      (cat.liveRows s.tombstones).filter (selects (fullSchema s.schema) request.filter) := by
  rw [liveRows_eq_flatMap, List.filter_flatMap]
  rfl

variable {columns : List String} {requested : Schema} {ks : List ℕ}

/-- A row read at the columns of a request is grouped as the whole row is. -/
theorem ColumnsAt.addRow (hq : ColumnsAt s.schema columns requested ks) (hw : WellNamed s.schema)
    (hkeys : ∀ c ∈ request.groupBy, c ∈ columns)
    (hinputs : ∀ a ∈ request.aggregates, a.column ∈ columns) (templates : List AggregateState)
    (groups : Groups) (r : Row) :
    addRow F request templates requested groups (Row.at r ks) =
      addRow F request templates (fullSchema s.schema) groups r := by
  have hupdate : updateGroup F request requested (Row.at r ks) =
      updateGroup F request (fullSchema s.schema) r := by
    funext group
    unfold updateGroup
    refine congrArg (· >>= _) (mapM_congr ?_)
    rintro ⟨a, state⟩ hp
    simp only [hq.columnValue_at hw (hinputs a (List.of_mem_zip hp).1)]
  rw [Txn.addRow, Txn.addRow, mapM_congr fun c hc => hq.columnValue_at hw (hkeys c hc) r, hupdate]

/-! ### The columns of a request -/

theorem exists_groupByColumns (hw : WellNamed s.schema) {q : DatasetSchema}
    (h : s.querySchema = .ok q) {outputs : List AggregateOutput}
    (hv : q.GroupByValid request outputs) :
    ∃ requested ks, s.querySchemaForColumns (groupByColumns request) = .ok requested ∧
      QueryColumns s.schema (groupByColumns request) requested ks := by
  have hfield : ∀ {c t}, q.Has c t → ∃ f ∈ s.schema.fields, f.name = c := by
    rintro c t ⟨col, hcol, rfl, -⟩
    obtain ⟨f, hf, hname, -⟩ := exists_field_of_column h hcol
    exact ⟨f, hf, hname⟩
  refine exists_queryColumns hw _
    (nodup_pushUniqueColumn (nodup_filterColumns? (nodup_foldl_pushUniqueColumn
      (nodup_foldl_pushUniqueColumn List.nodup_nil))))
    (mem_pushUniqueColumn.mpr (.inr rfl)) fun c hc => ?_
  rw [groupByColumns, mem_pushUniqueColumn, mem_filterColumns?, mem_foldl_pushUniqueColumn,
    mem_foldl_pushUniqueColumn] at hc
  rcases hc with (((hc | hc) | hc) | ⟨f, hmem, hc⟩) | hc
  · cases hc
  · obtain ⟨t, ht, -⟩ := hv.keys c hc
    exact .inr (hfield ht)
  · obtain ⟨a, ha, rfl⟩ := List.mem_map.mp hc
    obtain ⟨_, -, _, t, ht, -⟩ := exists_right_of_forall₂ hv.aggregates ha
    exact .inr (hfield ht)
  · exact .inr (exists_field_of_mentions h (hv.filter f hmem) hc)
  · exact .inl hc

theorem mem_groupByColumns_key {c : String} (h : c ∈ request.groupBy) :
    c ∈ groupByColumns request :=
  mem_pushUniqueColumn.mpr (.inl (mem_filterColumns?.mpr (.inl (mem_foldl_pushUniqueColumn.mpr
    (.inl (mem_foldl_pushUniqueColumn.mpr (.inr h)))))))

theorem mem_groupByColumns_input {a : Aggregate} (h : a ∈ request.aggregates) :
    a.column ∈ groupByColumns request :=
  mem_pushUniqueColumn.mpr (.inl (mem_filterColumns?.mpr (.inl (mem_foldl_pushUniqueColumn.mpr
    (.inr (List.mem_map_of_mem h))))))

theorem mem_groupByColumns_filter {f : FilterExpression} (hf : f ∈ request.filter) {x : String}
    (h : f.Mentions x) : x ∈ groupByColumns request :=
  mem_pushUniqueColumn.mpr (.inl (mem_filterColumns?.mpr (.inr ⟨f, hf, h⟩)))

/-! ### The file path -/

/-- One file read and filtered at the columns of a request. -/
theorem Snapshot.Valid.readGroupedFile (h : s.Valid P cat) (hs : cat.StoredIn store)
    {f : DataFileEntry × RecordBatch} (hf : f ∈ cat.files)
    (hq : QueryColumns s.schema columns requested ks) {filter : Option FilterExpression}
    (hfilter : ∀ e ∈ filter, ∀ x, e.Mentions x → x ∈ columns)
    (htyped : ∀ e ∈ filter, e.All (ComparisonTyped (fullSchema s.schema))) :
    ∃ b, s.readSurvivingFile store (some columns) (fun batch => do
          let batch ← castBatchToSchema P.kernels batch requested
          filterBatch batch filter) f.1 = .ok b ∧ b.schema = requested ∧
      b.rows = ((s.liveBatch f.2).rows.filter (selects (fullSchema s.schema) filter)).map
        (Row.at · ks) := by
  obtain ⟨b, hschema, hrows, hread⟩ := h.readSurvivingFile_columns hs hf hq
  have htyped' : ∀ e ∈ filter, e.All (ComparisonTyped b.schema) := by
    rw [hschema]
    exact fun e he => hq.all_comparisonTyped h.wellNamed (hfilter e he) (htyped e he)
  refine ⟨b.filter (selects b.schema filter), ?_, hschema, ?_⟩
  · rw [hread, filterBatch_of_typed htyped']
  · rw [RecordBatch.filter_rows, hschema, hrows, List.filter_map]
    exact congrArg _ (List.filter_congr fun r _ =>
      hq.toColumnsAt.selects_at h.wellNamed hfilter r)

/-- A snapshot groups its live rows file by file; no pruning shows. -/
theorem Snapshot.Valid.groupByQuery (h : s.Valid P cat) (hs : cat.StoredIn store)
    (request : GroupByRequest) :
    s.groupByQuery P F store request = s.answerGroupBy F request fun templates =>
      groupFiles F request templates (fullSchema s.schema) (s.groupedFiles cat request) := by
  unfold Snapshot.groupByQuery Snapshot.answerGroupBy
  cases hquery : s.querySchema with
  | error e => rfl
  | ok q =>
    rw [ok_bind, ok_bind]
    cases hval : q.validateGroupBy request with
    | error e => rfl
    | ok outputs =>
      rw [ok_bind, ok_bind]
      have hv := DatasetSchema.validateGroupBy_eq_ok hval
      obtain ⟨requested, ks, hcols, hq⟩ := exists_groupByColumns h.wellNamed hquery hv
      obtain ⟨batches, hbatches, hall⟩ := mapM_ok_of_exists fun f hf =>
        h.readGroupedFile hs (List.mem_of_mem_filter (p := fun f =>
            (request.filter.bind filterExpressionPruningPredicate).all
              (shouldScanFile f.1.stats)) hf) hq
          (fun e he x hx => mem_groupByColumns_filter he hx)
          (fun e he => (hv.filter e he).imp fun c hc =>
            comparisonTyped_of_has h.wellNamed hquery hc)
      dsimp only
      rw [hcols, engine_ok, ok_bind, h.readSurvivingFiles_mapM, hbatches, engine_ok, ok_bind]
      refine congrArg (_ >>= ·) (funext fun templates => congrArg (· >>= _) ?_)
      rw [groupFiles, Snapshot.groupedFiles, List.foldlM_map]
      refine Eq.trans ?_ (foldlM_filter (q := fun f =>
        (request.filter.bind filterExpressionPruningPredicate).all (shouldScanFile f.1.stats))
        (fun f hf hskip groups => ?_) [])
      · refine foldlM_of_forall₂ (List.Forall₂.flip (hall.imp fun f b hb groups => ?_)) []
        rw [mergeFile, hb.1, hb.2, List.foldlM_map]
        rw [foldlM_congr fun groups r _ => hq.toColumnsAt.addRow h.wellNamed
          (fun c hc => mem_groupByColumns_key hc) (fun a ha => mem_groupByColumns_input ha)
          templates groups r]
      · -- a file that the filter skips has no rows to group
        rw [h.filter_skipped hf hskip]
        rfl

/-! ### The path of a transaction -/

theorem Overlays.groupByQueryOverlay {rows : List Row} {batches : List RecordBatch}
    (ho : Overlays s rows batches) (hw : WellNamed s.schema) (request : GroupByRequest) :
    s.groupByQueryOverlay F request batches = s.answerGroupBy F request fun templates =>
      (rows.filter (selects (fullSchema s.schema) request.filter)).foldlM
        (addRow F request templates (fullSchema s.schema)) [] := by
  unfold Snapshot.groupByQueryOverlay Snapshot.answerGroupBy
  cases hquery : s.querySchema with
  | error e => rfl
  | ok q =>
    rw [ok_bind, ok_bind]
    cases hval : q.validateGroupBy request with
    | error e => rfl
    | ok outputs =>
      rw [ok_bind, ok_bind]
      have hv := DatasetSchema.validateGroupBy_eq_ok hval
      have hcolumn : ∀ {c t}, q.Has c t → c ∈ s.schema.fields.map Field.name := by
        rintro c t ⟨col, hcol, rfl, -⟩
        obtain ⟨f, hf, hname, -⟩ := exists_field_of_column hquery hcol
        exact List.mem_map.mpr ⟨f, hf, hname⟩
      refine congrArg (_ >>= ·) (funext fun templates => congrArg (· >>= _) ?_)
      have hbatch : ∀ (groups : Groups), ∀ b ∈ batches, (do
            let b ← engine (filterBatch b request.filter)
            b.rows.foldlM (addRow F request templates b.schema) groups) =
          (b.rows.filter (selects s.schema request.filter)).foldlM
            (addRow F request templates s.schema) groups := by
        intro groups b hb
        rw [filterBatch_logical hw hquery hv.filter (ho.schema b hb), engine_ok, ok_bind,
          RecordBatch.filter_schema, ho.schema b hb]
        rfl
      rw [foldlM_congr hbatch, ← foldlM_flatMap, ho.filter_rows hw hquery hv.filter,
        List.foldlM_map]
      refine foldlM_congr (fun groups r _ => ?_) []
      refine hw.columnsAt.addRow hw (fun c hc => ?_) (fun a ha => ?_) templates groups r
      · obtain ⟨t, ht, -⟩ := hv.keys c hc
        exact hcolumn ht
      · obtain ⟨_, -, _, t, ht, -⟩ := exists_right_of_forall₂ hv.aggregates ha
        exact hcolumn ht

end StrataDB.Txn
