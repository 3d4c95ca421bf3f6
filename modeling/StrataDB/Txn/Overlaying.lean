import StrataDB.Txn.Overlay
import StrataDB.Txn.Querying

/-! Reads of a transaction. Its batches hold the logical columns of stored rows: the
live rows of the base snapshot that it has not staged for removal, then the rows it has
staged. A request is answered from them as a snapshot with these rows answers it. -/

namespace StrataDB.Txn

open Lib Arrow Index Storage Query

variable {P : Platform} {s : Snapshot} {cat : Catalog} {store : Store}

/-- The logical cells of a stored row. -/
def logicalCells (schema : Schema) (r : Row) : Row := Row.at r (List.range schema.fields.length)

theorem logicalCells_append {schema : Schema} {r : Row} (h : r.length = schema.fields.length)
    (hidden : Row) : logicalCells schema (r ++ hidden) = r := by
  exact (map_cell_range _ (by simp [h])).trans (by rw [← h, List.take_left])

theorem WellNamed.columnsAt {schema : Schema} (hw : WellNamed schema) :
    ColumnsAt schema (schema.fields.map Field.name) schema
      (List.range schema.fields.length) :=
  ⟨rfl, hw.nodup, forall₂_range_of_getElem fun _ _ hk => fullFields_getElem_logical hk⟩

/-! ### The batches -/

theorem filterRowIds_of_stored {schema : Schema} {batch : RecordBatch} (hw : WellNamed schema)
    (h : StoresFields schema batch.schema.fields) (excluded : List ℕ) :
    filterRowIds batch excluded = .ok (batch.filter fun r => storedRowId r ∉ excluded) := by
  unfold filterRowIds
  by_cases hnil : excluded = []
  · rw [if_pos (by simp [hnil])]
    refine congrArg Except.ok (RecordBatch.ext' rfl ?_)
    rw [RecordBatch.filter_rows, hnil]
    simp
  · obtain ⟨hidx, htype⟩ := h.rowId_column hw
    rw [if_neg (by simpa using hnil)]
    simp only [hidx, orElse, ok_bind, htype, ensure, if_true]
    refine congrArg Except.ok (RecordBatch.ext' rfl (List.filter_congr fun r hr => ?_))
    rw [(cell_rowId (h.fits_iff.mp (batch.fits r hr))).1]
    simp [Cell.toRowId]

/-- The live rows without the excluded ones. -/
def Catalog.keptRows (cat : Catalog) (s : Snapshot) (excluded : List ℕ) : List Row :=
  (cat.liveRows s.tombstones).filter fun r => storedRowId r ∉ excluded

/-- The batches of the base hold its remaining live rows. -/
theorem Snapshot.Valid.visibleLogicalBatchesExcluding (h : s.Valid P cat)
    (hs : cat.StoredIn store) (excluded : List ℕ) :
    ∃ batches, s.visibleLogicalBatchesExcluding P store excluded = .ok batches ∧
      (∀ b ∈ batches, b.schema = s.schema) ∧
      batches.flatMap RecordBatch.rows =
        (cat.keptRows s excluded).map (logicalCells s.schema) := by
  have hfile : ∀ f ∈ cat.files, ∃ b,
      (do
        let batch ← filterRowIds (s.liveBatch f.2) excluded
        castBatchToSchema P.kernels batch s.schema) = .ok b ∧ b.schema = s.schema ∧
      b.rows = (((s.liveBatch f.2).rows.filter fun r => storedRowId r ∉ excluded).map
        (logicalCells s.schema)) := by
    intro f hf
    have hfields : StoresFields s.schema
        ((s.liveBatch f.2).filter fun r => storedRowId r ∉ excluded).schema.fields :=
      (h.fileValid f hf).fields
    rw [filterRowIds_of_stored h.wellNamed
      (show StoresFields s.schema (s.liveBatch f.2).schema.fields from hfields), ok_bind]
    exact castBatch_of_stored h.wellNamed hfields h.wellNamed.columnsAt.positions
  obtain ⟨batches, hbatches, hall⟩ := mapM_ok_of_exists hfile
  refine ⟨batches, ?_, fun b hb => ?_, ?_⟩
  · rw [Snapshot.visibleLogicalBatchesExcluding, h.readSurvivingPhysicalBatches hs, ok_bind,
      List.mapM_map]
    exact hbatches
  · obtain ⟨f, -, hschema, -⟩ := exists_left_of_forall₂ hall hb
    exact hschema
  · rw [flatMap_eq_of_forall₂ (hall.imp fun _ _ hb => hb.2), Catalog.keptRows,
      liveRows_eq_flatMap, List.filter_flatMap, List.map_flatMap]

/-- What a transaction reads, as rows of its base's schema: `rows` are stored rows with
the logical cells of the batches. -/
structure Overlays (s : Snapshot) (rows : List Row) (batches : List RecordBatch) : Prop where
  schema : ∀ b ∈ batches, b.schema = s.schema
  rows : batches.flatMap RecordBatch.rows = rows.map (logicalCells s.schema)

theorem Transaction.overlayBatches_eq_ok {t : Transaction} (h : t.base.Valid P cat)
    (hs : cat.StoredIn store) (hpending : ∀ b ∈ t.pending, b.schema = t.base.schema)
    {staged : List Row}
    (hstaged : t.pending.flatMap RecordBatch.rows = staged.map (logicalCells t.base.schema)) :
    ∃ batches, t.overlayBatches P store = .ok batches ∧
      Overlays t.base (cat.keptRows t.base t.pendingTombstones ++ staged) batches := by
  obtain ⟨batches, hbatches, hschema, hrows⟩ :=
    h.visibleLogicalBatchesExcluding hs t.pendingTombstones
  refine ⟨batches ++ t.pending, ?_, fun b hb => ?_, ?_⟩
  · rw [Transaction.overlayBatches, hbatches]
    rfl
  · exact (List.mem_append.mp hb).elim (hschema b) (hpending b)
  · rw [List.flatMap_append, hrows, hstaged, List.map_append]

/-! ### Filtering a batch -/

variable {q : DatasetSchema} {batches : List RecordBatch}

theorem filterBatch_logical (hw : WellNamed s.schema) (hquery : s.querySchema = .ok q)
    {filter : Option FilterExpression}
    (hf : ∀ f ∈ filter, f.All fun c => q.Has c.column c.value.logicalType) {b : RecordBatch}
    (hb : b.schema = s.schema) :
    filterBatch b filter = .ok (b.filter (selects s.schema filter)) := by
  have hcolumn : ∀ e ∈ filter, ∀ x, e.Mentions x → x ∈ s.schema.fields.map Field.name := by
    intro e he x hx
    obtain ⟨f, hmem, rfl⟩ := exists_field_of_mentions hquery (hf e he) hx
    exact List.mem_map_of_mem hmem
  rw [← hb]
  refine filterBatch_of_typed fun e he => ?_
  rw [hb]
  exact (e.all_mentions.and (hf e he)).imp fun c hc =>
    hw.columnsAt.comparisonTyped hw (hcolumn e he c.column hc.1)
      (comparisonTyped_of_has hw hquery hc.2)

theorem selects_logical (hw : WellNamed s.schema) (hquery : s.querySchema = .ok q)
    {filter : Option FilterExpression}
    (hf : ∀ f ∈ filter, f.All fun c => q.Has c.column c.value.logicalType) (r : Row) :
    selects s.schema filter (logicalCells s.schema r) = selects (fullSchema s.schema) filter r := by
  refine hw.columnsAt.selects_at hw (fun e he x hx => ?_) r
  obtain ⟨f, hmem, rfl⟩ := exists_field_of_mentions hquery (hf e he) hx
  exact List.mem_map_of_mem hmem

/-- The rows that a validated filter keeps of all batches. -/
theorem Overlays.filter_rows {rows : List Row} (ho : Overlays s rows batches)
    (hw : WellNamed s.schema) (hquery : s.querySchema = .ok q) {filter : Option FilterExpression}
    (hf : ∀ f ∈ filter, f.All fun c => q.Has c.column c.value.logicalType) :
    (batches.flatMap fun b => b.rows.filter (selects s.schema filter)) =
      (rows.filter (selects (fullSchema s.schema) filter)).map (logicalCells s.schema) := by
  rw [← List.filter_flatMap, ho.rows, List.filter_map]
  exact congrArg _ (List.filter_congr fun r _ => selects_logical hw hquery hf r)

/-! ### Scans -/

theorem Overlays.scanQueryOverlay {rows : List Row} (ho : Overlays s rows batches)
    (hw : WellNamed s.schema) (request : ScanRequest) :
    s.scanQueryOverlay request batches = s.answerScan rows request := by
  unfold Snapshot.scanQueryOverlay Snapshot.answerScan
  cases hquery : s.querySchema with
  | error e => rfl
  | ok q =>
    rw [ok_bind, ok_bind]
    cases hval : q.validateScan request with
    | error e => rfl
    | ok projection =>
      rw [ok_bind, ok_bind]
      simp only [DatasetSchema.validateScan, bind_eq_ok, pure_eq_ok] at hval
      obtain ⟨projection, hproj, _, hfil, rfl⟩ := hval
      have hfilter := DatasetSchema.validateFilter?_eq_ok hfil
      have hbatch : ∀ b ∈ batches, (do
            let filtered ← filterBatch b request.filter
            projectedRows filtered projection) =
          (b.rows.filter (selects s.schema request.filter)).mapM
            (projectedRow s.schema projection) := by
        intro b hb
        rw [filterBatch_logical hw hquery hfilter (ho.schema b hb), ok_bind, projectedRows,
          RecordBatch.filter_schema, ho.schema b hb]
        rfl
      have hrow : ∀ r, projectedRow s.schema projection (logicalCells s.schema r) =
          projectedRow (fullSchema s.schema) projection r :=
        hw.columnsAt.projectedRow_at hw fun name hname => by
          obtain ⟨f, hmem, rfl⟩ := exists_field_of_projection hquery hproj hname
          exact List.mem_map_of_mem hmem
      have hrows : ((batches.mapM fun (b : RecordBatch) => (b.rows.filter
            (selects s.schema request.filter)).mapM (projectedRow s.schema projection)).map
              List.flatten) =
          (rows.filter (selects (fullSchema s.schema) request.filter)).mapM
            (projectedRow (fullSchema s.schema) projection) := by
        rw [← mapM_flatMap, ho.filter_rows hw hquery hfilter, List.mapM_map]
        exact mapM_congr fun r _ => hrow r
      rw [mapM_congr hbatch, ← hrows]
      exact engine_bind_map _ List.flatten fun rows => .ok (ScanResult.mk projection rows)

end StrataDB.Txn
