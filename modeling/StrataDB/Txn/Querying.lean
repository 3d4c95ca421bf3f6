import Mathlib.Data.List.Find
import StrataDB.Txn.ScanQuery
import StrataDB.Txn.Scanning

/-! Typed reads of a valid version. Reading the columns a request needs shows the
live rows at their positions; comparisons and projections find the same cells there
as in the whole rows, so a query is answered row by row from the live rows. -/

namespace StrataDB.Txn

open Lib Arrow Index Storage Query

variable {P : Platform} {s : Snapshot} {cat : Catalog} {store : Store}

/-! ### Columns of a request -/

variable {columns projection : List String} {c x name : String} {f e : FilterExpression}
  {requested : Schema} {ks : List ℕ} {r : Row} {stored : List Field} {batch : RecordBatch} {i : ℕ}
  {q : DatasetSchema} {t : DataType} {α β : Type}

theorem mem_pushUniqueColumn : x ∈ pushUniqueColumn columns c ↔ x ∈ columns ∨ x = c := by
  unfold pushUniqueColumn
  split
  · constructor
    · exact .inl
    · rintro (hx | rfl)
      · exact hx
      · assumption
  · simp

theorem nodup_pushUniqueColumn (h : columns.Nodup) : (pushUniqueColumn columns c).Nodup := by
  unfold pushUniqueColumn
  split
  · exact h
  · rename_i hc
    exact List.nodup_append.mpr ⟨h, List.nodup_singleton c, by
      rintro x hx _ hy rfl
      exact hc (List.mem_singleton.mp hy ▸ hx)⟩

theorem mem_foldl_pushUniqueColumn {names : List String} :
    x ∈ names.foldl pushUniqueColumn columns ↔ x ∈ columns ∨ x ∈ names := by
  induction names generalizing columns with
  | nil => simp
  | cons c names ih => rw [List.foldl_cons, ih, mem_pushUniqueColumn, List.mem_cons, or_assoc]

theorem nodup_foldl_pushUniqueColumn {names : List String} (h : columns.Nodup) :
    (names.foldl pushUniqueColumn columns).Nodup := by
  induction names generalizing columns with
  | nil => exact h
  | cons c names ih => exact ih (nodup_pushUniqueColumn h)

/-- Some comparison of the filter is on this column. -/
def FilterExpression.Mentions (x : String) : FilterExpression → Prop
  | .compare c => x = c.column
  | .and l r => l.Mentions x ∨ r.Mentions x
  | .or l r => l.Mentions x ∨ r.Mentions x
  | .not e => e.Mentions x

theorem FilterExpression.all_mentions (f : FilterExpression) :
    f.All fun c => f.Mentions c.column := by
  induction f with
  | compare c => exact rfl
  | and l r ihl ihr => exact ⟨ihl.imp fun _ => .inl, ihr.imp fun _ => .inr⟩
  | or l r ihl ihr => exact ⟨ihl.imp fun _ => .inl, ihr.imp fun _ => .inr⟩
  | not e ih => exact ih

theorem FilterExpression.All.of_mentions {p : Comparison → Prop} {q : String → Prop}
    (h : ∀ c, p c → q c.column) (hf : f.All p) (hx : f.Mentions x) : q x := by
  induction f with
  | compare c =>
    obtain rfl := hx
    exact h c hf
  | and l r ihl ihr => exact hx.elim (ihl hf.1) (ihr hf.2)
  | or l r ihl ihr => exact hx.elim (ihl hf.1) (ihr hf.2)
  | not e ih => exact ih hf hx

theorem mem_filterColumns : x ∈ filterColumns f columns ↔ x ∈ columns ∨ f.Mentions x := by
  induction f generalizing columns with
  | compare c => exact mem_pushUniqueColumn
  | and l r ihl ihr => rw [filterColumns, ihr, ihl, or_assoc]; rfl
  | or l r ihl ihr => rw [filterColumns, ihr, ihl, or_assoc]; rfl
  | not e ih => exact ih

theorem nodup_filterColumns (h : columns.Nodup) : (filterColumns f columns).Nodup := by
  induction f generalizing columns with
  | compare c => exact nodup_pushUniqueColumn h
  | and l r ihl ihr => exact ihr (ihl h)
  | or l r ihl ihr => exact ihr (ihl h)
  | not e ih => exact ih h

theorem mem_filterColumns? {filter : Option FilterExpression} :
    x ∈ filterColumns? filter columns ↔ x ∈ columns ∨ ∃ f ∈ filter, f.Mentions x := by
  cases filter with
  | none => simp [filterColumns?]
  | some f => simp [filterColumns?, mem_filterColumns]

theorem nodup_filterColumns? {filter : Option FilterExpression} (h : columns.Nodup) :
    (filterColumns? filter columns).Nodup := by
  cases filter with
  | none => exact h
  | some f => exact nodup_filterColumns h

/-- Columns of a stored row in the order of another schema. -/
structure ColumnsAt (schema : Schema) (columns : List String) (requested : Schema)
    (ks : List ℕ) : Prop where
  names : requested.fields.map Field.name = columns
  nodup : columns.Nodup
  positions : List.Forall₂ (fun f k => (fullFields schema)[k]? = some f) requested.fields ks

/-- The columns a request reads, the row id among them. -/
structure QueryColumns (schema : Schema) (columns : List String) (requested : Schema)
    (ks : List ℕ) : Prop extends ColumnsAt schema columns requested ks where
  rowId_mem : rowIdColumn ∈ columns

theorem exists_queryColumns (hw : WellNamed s.schema) (columns : List String)
    (hn : columns.Nodup) (hrow : rowIdColumn ∈ columns)
    (hmem : ∀ c ∈ columns, c = rowIdColumn ∨ ∃ f ∈ s.schema.fields, f.name = c) :
    ∃ requested ks, s.querySchemaForColumns columns = .ok requested ∧
      QueryColumns s.schema columns requested ks := by
  have hcolumn : ∀ c ∈ columns, ∃ f,
      (if c = rowIdColumn then Except.ok rowIdField
        else orElse (s.schema.fieldWithName c)
          (TxnError.batchSchemaMismatch s!"owned field named \"{c}\""
            s!"query field list missing \"{c}\"")) = .ok f ∧
      f.name = c ∧ f ∈ fullFields s.schema := by
    intro c hc
    by_cases hid : c = rowIdColumn
    · rw [if_pos hid]
      exact ⟨rowIdField, rfl, hid.symm, by simp [fullFields]⟩
    · obtain ⟨f, hf, rfl⟩ := (hmem c hc).resolve_left hid
      rw [if_neg hid, Schema.fieldWithName, find?_key_eq hw.nodup hf]
      exact ⟨f, rfl, rfl, List.mem_append_left _ hf⟩
  obtain ⟨fields, hfields, hall⟩ := mapM_ok_of_exists hcolumn
  have hnames : fields.map Field.name = columns := by
    rw [map_eq_of_forall₂ (f := id) (hall.imp fun _ _ h => h.1), List.map_id]
  refine ⟨⟨fields, s.schema.metadata⟩, positions s.schema ⟨fields, s.schema.metadata⟩, ?_,
    ⟨hnames, hn, ?_⟩, hrow⟩
  · rw [Snapshot.querySchemaForColumns, hfields]
    rfl
  · rw [positions, List.forall₂_map_right_iff, List.forall₂_same]
    intro f hf
    obtain ⟨c, -, -, hfull⟩ := exists_left_of_forall₂ hall hf
    obtain ⟨k, hk⟩ := List.mem_iff_getElem?.mp hfull
    have hidx : (fullSchema s.schema).indexOf f.name = some k :=
      indexOf_of_getElem hw.full_nodup hk
    rw [hidx]
    exact hk

/-! ### Reading the columns -/

theorem fitsFields_at {fs gs : List Field} (h : List.Forall₂ (fun g k => fs[k]? = some g) gs ks)
    (hr : fitsFields fs r = true) : fitsFields gs (Row.at r ks) = true := by
  rw [fitsFields_iff, Row.at, List.forall₂_map_right_iff]
  exact h.imp fun g k hk => accepts_cell hr hk

/-- The stored fields at the positions of the requested ones. -/
theorem QueryColumns.exists_stored {schema : Schema} (hq : QueryColumns schema columns requested ks)
    (h : StoresFields schema stored) :
    List.Forall₂ (fun g k => stored[k]? = some g) (ks.filterMap (stored[·]?)) ks ∧
      List.Forall₂ (fun st owned => storedFieldMatches st owned = true ∧
        (owned.name ∈ hiddenColumns → st = owned)) (ks.filterMap (stored[·]?))
          requested.fields := by
  have hpos := hq.positions
  clear hq
  generalize requested.fields = fields at hpos
  induction hpos with
  | nil => exact ⟨.nil, .nil⟩
  | @cons f k fields ks hk _ ih =>
    obtain ⟨st, hst, hm⟩ := h.getElem hk
    rw [List.filterMap_cons_some hst]
    exact ⟨.cons hst ih.1, .cons hm ih.2⟩

/-- Reading only the columns of a request gives each row at their positions. -/
theorem QueryColumns.projectColumns {schema : Schema}
    (hq : QueryColumns schema columns requested ks) (hw : WellNamed schema)
    (h : StoresFields schema batch.schema.fields) :
    ∃ raw, projectColumns batch columns = .ok raw ∧ raw.rows = batch.rows.map (Row.at · ks) ∧
      List.Forall₂ (fun st owned => storedFieldMatches st owned = true ∧
        (owned.name ∈ hiddenColumns → st = owned)) raw.schema.fields requested.fields := by
  obtain ⟨hstored, hmatch⟩ := hq.exists_stored h
  have hindices : columns.mapM (fun name => orElse (batch.schema.indexOf name)
      (missingField name)) = .ok ks := by
    rw [← hq.names, List.mapM_map, mapM_eq_ok]
    exact hq.positions.imp fun f k hk => orElse_eq_ok.mpr (h.indexOf hw hk)
  have hfits : ∀ r ∈ batch.rows.map (Row.at · ks),
      fitsFields (ks.filterMap (batch.schema.fields[·]?)) r = true := by
    intro _ hmem
    obtain ⟨r, hr, rfl⟩ := List.mem_map.mp hmem
    exact fitsFields_at hstored (batch.fits r hr)
  refine ⟨⟨⟨ks.filterMap (batch.schema.fields[·]?), batch.schema.metadata⟩, _, hfits⟩, ?_, rfl,
    hmatch⟩
  unfold Txn.projectColumns
  rw [hindices, ok_bind]
  exact congrArg (lift _) (@RecordBatch.tryNewWithOptions_of_fits ⟨_, _⟩ _ hfits)

theorem names_of_matches {owned : List Field}
    (h : List.Forall₂ (fun st f => storedFieldMatches st f = true) stored owned) :
    stored.map Field.name = owned.map Field.name :=
  (map_eq_of_forall₂ (h.imp fun _ _ hm => (storedFieldMatches_iff.mp hm).1.symm)).symm

/-- Casting the columns of a request to its schema only unpacks them. -/
theorem castBatch_of_matches {K : Kernels} (batch : RecordBatch)
    (hn : (requested.fields.map Field.name).Nodup)
    (h : List.Forall₂ (fun st owned => storedFieldMatches st owned = true)
      batch.schema.fields requested.fields) :
    ∃ b, castBatchToSchema K batch requested = .ok b ∧ b.schema = requested ∧
      b.rows = batch.rows := by
  have hcols : requested.fields.mapM (castColumn K batch.schema) =
      .ok ((List.range requested.fields.length).map fun k => (k, id)) := by
    rw [mapM_eq_ok, List.forall₂_map_right_iff, List.forall₂_iff_get]
    refine ⟨by simp, fun i hi _ => ?_⟩
    have hi' : i < batch.schema.fields.length := by rwa [h.length_eq]
    have hm := List.Forall₂.get h hi' hi
    have hst := List.getElem?_eq_getElem hi'
    simp only [List.get_eq_getElem, List.getElem_range] at hm ⊢
    refine castColumn_of_matches ?_ hst hm
    rw [← (storedFieldMatches_iff.mp hm).1]
    exact indexOf_of_getElem (by rwa [names_of_matches h]) hst
  have hrow : ∀ r ∈ batch.rows, ((List.range requested.fields.length).map fun k =>
      ((k, id) : ℕ × (Cell → Cell))).map (fun c => c.2 (Row.cell r c.1)) = r := by
    intro r hr
    have hlen : r.length = requested.fields.length := by
      rw [fitsFields_length (batch.fits r hr), h.length_eq]
    rw [List.map_map, ← hlen]
    exact (map_cell_range r (Nat.le_refl _)).trans List.take_length
  have hrows : (batch.rows.map fun r => ((List.range requested.fields.length).map fun k =>
      ((k, id) : ℕ × (Cell → Cell))).map fun c => c.2 (Row.cell r c.1)) = batch.rows := by
    conv_rhs => rw [← List.map_id batch.rows]
    exact List.map_congr_left hrow
  have hfits : ∀ r ∈ batch.rows, fitsFields requested.fields r = true := by
    intro r hr
    have hst := fitsFields_iff.mp (batch.fits r hr)
    refine fitsFields_iff.mpr ((List.forall₂_iff_get.mpr ⟨?_, fun i h₁ h₂ => ?_⟩))
    · rw [← h.length_eq, hst.length_eq]
    · have h₃ : i < batch.schema.fields.length := by rwa [h.length_eq]
      rw [← accepts_of_storedFieldMatches (List.Forall₂.get h h₃ h₁)]
      exact List.Forall₂.get hst h₃ h₂
  refine ⟨⟨requested, batch.rows, hfits⟩, ?_, rfl, rfl⟩
  unfold castBatchToSchema
  rw [hcols, ok_bind, hrows]
  exact congrArg (lift _) (@RecordBatch.tryNewWithOptions_of_fits ⟨_, _⟩ _ hfits)

theorem WellNamed.indexOf_rowId {schema : Schema} (hw : WellNamed schema) :
    (fullSchema schema).indexOf rowIdColumn = some schema.fields.length :=
  indexOf_of_getElem (f := rowIdField) hw.full_nodup (fullFields_getElem_rowId schema)

theorem ColumnsAt.exists_indexOf {schema : Schema} (hq : ColumnsAt schema columns requested ks)
    (hc : c ∈ columns) : ∃ i, requested.indexOf c = some i := by
  rw [← hq.names] at hc
  obtain ⟨f, hf, rfl⟩ := List.mem_map.mp hc
  obtain ⟨i, hi⟩ := List.mem_iff_getElem?.mp hf
  exact ⟨i, indexOf_of_getElem (by rw [hq.names]; exact hq.nodup) hi⟩

theorem QueryColumns.rowId_at (hw : WellNamed s.schema)
    (hq : QueryColumns s.schema columns requested ks) (hi : requested.indexOf rowIdColumn = some i)
    (hr : fitsFields (fullFields s.schema) r = true) :
    Row.cell (Row.at r ks) i = .uint64 (storedRowId r) := by
  obtain ⟨k, hk, -, hcell⟩ := column_at hw hq.positions hi
  obtain rfl : s.schema.fields.length = k := Option.some.inj (hw.indexOf_rowId.symm.trans hk)
  rw [hcell, (cell_rowId hr).1]

theorem QueryColumns.rowId_type (hw : WellNamed s.schema)
    (hq : QueryColumns s.schema columns requested ks)
    (hi : requested.indexOf rowIdColumn = some i) : requested.typeAt i = .uint64 := by
  obtain ⟨k, hk, htype, -⟩ := column_at hw hq.positions hi
  obtain rfl : s.schema.fields.length = k := Option.some.inj (hw.indexOf_rowId.symm.trans hk)
  rw [← htype, Schema.typeAt,
    show (fullSchema s.schema).fields = fullFields s.schema from rfl,
    fullFields_getElem_rowId]
  rfl

/-- A file read at the columns of a request, tombstoned rows included. -/
theorem Snapshot.Valid.readBatchColumns (h : s.Valid P cat) (hs : cat.StoredIn store)
    {f : DataFileEntry × RecordBatch} (hf : f ∈ cat.files)
    (hq : QueryColumns s.schema columns requested ks) :
    ∃ raw, readBatchColumns store f.1.name columns = .ok raw ∧
      raw.rows = f.2.rows.map (Row.at · ks) ∧
      List.Forall₂ (fun st owned => storedFieldMatches st owned = true ∧
        (owned.name ∈ hiddenColumns → st = owned)) raw.schema.fields requested.fields := by
  obtain ⟨raw, hraw, hrest⟩ := hq.projectColumns h.wellNamed (h.fileValid f hf).fields
  refine ⟨raw, ?_, hrest⟩
  rw [Txn.readBatchColumns, readBatch, hs.files f hf]
  exact hraw

/-- A file read at the columns of a request shows its live rows there. -/
theorem Snapshot.Valid.readSurvivingFile_columns (h : s.Valid P cat) (hs : cat.StoredIn store)
    {f : DataFileEntry × RecordBatch} (hf : f ∈ cat.files)
    (hq : QueryColumns s.schema columns requested ks) :
    ∃ b, b.schema = requested ∧ b.rows = (s.liveBatch f.2).rows.map (Row.at · ks) ∧
      ∀ {α : Type} (process : RecordBatch → Except TxnError α),
        s.readSurvivingFile store (some columns)
          (fun batch => castBatchToSchema P.kernels batch requested >>= process) f.1 =
        process b := by
  obtain ⟨raw, hraw, hrows, hmatch⟩ := h.readBatchColumns hs hf hq
  have hfields : List.Forall₂ (fun st owned => storedFieldMatches st owned = true)
      raw.schema.fields requested.fields := hmatch.imp fun _ _ hm => hm.1
  have hn : (requested.fields.map Field.name).Nodup := by rw [hq.names]; exact hq.nodup
  -- the row id stands at the same position before and after the cast
  obtain ⟨i, hi⟩ := hq.toColumnsAt.exists_indexOf hq.rowId_mem
  obtain ⟨owned, howned, hname, -⟩ := indexOf_eq_some hi
  obtain ⟨hlt, rfl⟩ := List.getElem?_eq_some_iff.mp howned
  have hlt' : i < raw.schema.fields.length := by rwa [hmatch.length_eq]
  have hm := List.Forall₂.get hmatch hlt' hlt
  simp only [List.get_eq_getElem] at hm
  have hst : raw.schema.fields[i]? = some requested.fields[i] := by
    rw [List.getElem?_eq_getElem hlt', hm.2 (by rw [hname]; decide)]
  have hidx : raw.schema.indexOf rowIdColumn = some i := by
    rw [← hname]
    exact indexOf_of_getElem (by rwa [names_of_matches hfields]) hst
  have htype : raw.schema.typeAt i = .uint64 := by
    have := hq.rowId_type h.wellNamed hi
    rw [Schema.typeAt, howned] at this
    rw [Schema.typeAt, hst]
    exact this
  have hfilter : s.filterTombstonedRows raw =
      .ok (raw.filter fun r => Cell.toRowId (Row.cell r i) ∉ s.tombstones) := by
    unfold Snapshot.filterTombstonedRows
    by_cases hnil : s.tombstones = []
    · rw [if_pos (by simp [hnil])]
      refine congrArg Except.ok (RecordBatch.ext' rfl ?_)
      rw [RecordBatch.filter_rows, hnil]
      simp
    · rw [if_neg (by simpa using hnil)]
      simp only [hidx, orElse, ok_bind, htype, ensure, if_true]
      refine congrArg Except.ok (RecordBatch.ext' rfl (List.filter_congr fun r _ => ?_))
      simp
  obtain ⟨b, hb, hschema, hbrows⟩ := castBatch_of_matches (K := P.kernels)
    (raw.filter fun r => Cell.toRowId (Row.cell r i) ∉ s.tombstones) hn hfields
  refine ⟨b, hschema, ?_, fun process => ?_⟩
  · rw [hbrows, RecordBatch.filter_rows, hrows, List.filter_map, Snapshot.liveBatch,
      RecordBatch.filter_rows]
    refine congrArg _ (List.filter_congr fun r hr => ?_)
    simp [hq.rowId_at h.wellNamed hi ((h.fileValid f hf).fits hr), Cell.toRowId]
  · unfold Snapshot.readSurvivingFile
    simp only [hraw, ok_bind, hfilter, hb]

/-! ### Rows of a request -/

section

variable {columns : List String} {requested : Schema} {ks : List ℕ}

variable {c : Comparison}

theorem ColumnsAt.rowComparison_at (hq : ColumnsAt s.schema columns requested ks)
    (hw : WellNamed s.schema) (hc : c.column ∈ columns) (r : Row) :
    rowComparison requested (Row.at r ks) c = rowComparison (fullSchema s.schema) r c := by
  obtain ⟨i, hi⟩ := hq.exists_indexOf hc
  obtain ⟨k, hk, -, hcell⟩ := column_at hw hq.positions hi
  rw [rowComparison, rowComparison, hi, hk, Option.bind_some, Option.bind_some, hcell]

theorem ColumnsAt.comparisonTyped (hq : ColumnsAt s.schema columns requested ks)
    (hw : WellNamed s.schema) (hc : c.column ∈ columns)
    (h : ComparisonTyped (fullSchema s.schema) c) : ComparisonTyped requested c := by
  obtain ⟨i, hi⟩ := hq.exists_indexOf hc
  obtain ⟨k, hk, htype, -⟩ := column_at hw hq.positions hi
  obtain ⟨k', hk', htyped⟩ := h
  rw [hk] at hk'
  cases hk'
  exact ⟨i, hi, by rw [← htype, htyped]⟩

theorem ColumnsAt.eval_at (hq : ColumnsAt s.schema columns requested ks)
    (hw : WellNamed s.schema) {f : FilterExpression} (hf : ∀ x, f.Mentions x → x ∈ columns)
    (r : Row) : f.eval (rowComparison requested (Row.at r ks)) =
      f.eval (rowComparison (fullSchema s.schema) r) :=
  FilterExpression.eval_congr
    (f.all_mentions.imp fun c hc => hq.rowComparison_at hw (hf c.column hc) r)

theorem ColumnsAt.selects_at (hq : ColumnsAt s.schema columns requested ks)
    (hw : WellNamed s.schema) {filter : Option FilterExpression}
    (hf : ∀ f ∈ filter, ∀ x, f.Mentions x → x ∈ columns) (r : Row) :
    selects requested filter (Row.at r ks) = selects (fullSchema s.schema) filter r := by
  cases filter with
  | none => rfl
  | some f => simp only [selects, Option.all_some, hq.eval_at hw (hf f rfl) r]

theorem ColumnsAt.columnValue_at (hq : ColumnsAt s.schema columns requested ks)
    (hw : WellNamed s.schema) {name : String} (hname : name ∈ columns) (r : Row) :
    columnValue requested (Row.at r ks) name = columnValue (fullSchema s.schema) r name := by
  obtain ⟨i, hi⟩ := hq.exists_indexOf hname
  obtain ⟨k, hk, htype, hcell⟩ := column_at hw hq.positions hi
  simp only [columnValue, hi, hk, orElse, ok_bind, htype, hcell]

theorem ColumnsAt.projectedRow_at (hq : ColumnsAt s.schema columns requested ks)
    (hw : WellNamed s.schema) {projection : List String}
    (hp : ∀ name ∈ projection, name ∈ columns) (r : Row) :
    projectedRow requested projection (Row.at r ks) =
      projectedRow (fullSchema s.schema) projection r := by
  rw [projectedRow, projectedRow]
  refine congrArg (· >>= _) (mapM_congr fun name hname => ?_)
  rw [hq.columnValue_at hw (hp name hname)]

end

/-! ### Validated requests -/

theorem querySchema_eq_ok (h : s.querySchema = .ok q) :
    List.Forall₂ (fun f c => c.name = f.name ∧ logicalType f.dataType = .ok c.dataType)
      s.schema.fields q.columns := by
  simp only [Snapshot.querySchema, bind_eq_ok, engine_eq_ok] at h
  obtain ⟨columns, hcolumns, hnew⟩ := h
  rw [DatasetSchema.new_eq_ok hnew]
  refine (mapM_eq_ok.mp hcolumns).imp fun f c hc => ?_
  simp only [bind_eq_ok, pure_eq_ok] at hc
  obtain ⟨t, ht, rfl⟩ := hc
  exact ⟨rfl, ht⟩

theorem querySchema_nodup (hw : WellNamed s.schema) (h : s.querySchema = .ok q) :
    (q.columns.map LogicalColumn.name).Nodup := by
  rw [map_eq_of_forall₂ ((querySchema_eq_ok h).imp fun _ _ hc => hc.1)]
  exact hw.nodup

/-- Every column of the query schema is one of the dataset's. -/
theorem exists_field_of_column (h : s.querySchema = .ok q) {c : LogicalColumn}
    (hc : c ∈ q.columns) :
    ∃ f ∈ s.schema.fields, f.name = c.name ∧ logicalType f.dataType = .ok c.dataType := by
  obtain ⟨f, hf, hname, htype⟩ := exists_left_of_forall₂ (querySchema_eq_ok h) hc
  exact ⟨f, hf, hname.symm, htype⟩

theorem arrayType_of_logicalType {v : FilterLiteral} (h : logicalType t = .ok v.logicalType) :
    t = v.arrayType.1 := by
  unfold logicalType at h
  split at h <;> cases v <;> cases h <;> rfl

theorem comparisonTyped_of_has (hw : WellNamed s.schema) (h : s.querySchema = .ok q)
    {c : Comparison} (hc : q.Has c.column c.value.logicalType) :
    ComparisonTyped (fullSchema s.schema) c := by
  obtain ⟨col, hcol, hname, htype⟩ := hc
  obtain ⟨f, hf, hfname, hftype⟩ := exists_field_of_column h hcol
  obtain ⟨k, hk⟩ := List.mem_iff_getElem?.mp hf
  have hfull := fullFields_getElem_logical hk
  refine ⟨k, ?_, ?_⟩
  · rw [← hname, ← hfname]
    exact indexOf_of_getElem hw.full_nodup hfull
  · rw [Schema.typeAt, show (fullSchema s.schema).fields = fullFields s.schema from rfl, hfull]
    exact arrayType_of_logicalType (htype ▸ hftype)

theorem exists_field_of_mentions (h : s.querySchema = .ok q)
    (hf : f.All fun c => q.Has c.column c.value.logicalType) (hx : f.Mentions x) :
    ∃ field ∈ s.schema.fields, field.name = x := by
  refine hf.of_mentions (q := fun x => ∃ field ∈ s.schema.fields, field.name = x)
    (fun c hc => ?_) hx
  obtain ⟨col, hcol, hname, -⟩ := hc
  obtain ⟨field, hfield, hfname, -⟩ := exists_field_of_column h hcol
  exact ⟨field, hfield, hfname.trans hname⟩

theorem exists_field_of_projection (h : s.querySchema = .ok q) {p : Projection}
    {names : List String} (hp : q.validateProjection p = .ok names) (hname : name ∈ names) :
    ∃ field ∈ s.schema.fields, field.name = name := by
  obtain ⟨col, hcol, rfl⟩ := DatasetSchema.validateProjection_mem hp name hname
  obtain ⟨field, hfield, hfname, -⟩ := exists_field_of_column h hcol
  exact ⟨field, hfield, hfname⟩

/-! ### Skipped files -/

/-- A row that satisfies a filter keeps the statistics that cover it. -/
theorem StatsCover.shouldScanFile {schema : Schema} {stats : Stats} {rows : List Row}
    (h : StatsCover schema stats rows) (hfin : ∀ y ∈ Stats.floats stats, y.isFinite = true)
    {p : Predicate} (hp : filterExpressionPruningPredicate f = some p) (hr : r ∈ rows)
    (heval : f.eval (rowComparison (fullSchema schema) r) = some true) :
    shouldScanFile stats p = true := by
  refine shouldScanFile_of_filter (f.all_mentions.imp fun c _ hleaf op v hop hv => ?_) hp heval
  obtain ⟨i, hi, hcell⟩ := Option.bind_eq_some_iff.mp hleaf
  obtain ⟨field, hfield, hname, -⟩ := indexOf_eq_some hi
  obtain ⟨x, hx, hnum⟩ := numeric_of_cell hop hv hcell
  refine leafScan_of_covers (fun entry hentry => ?_) hnum
  exact h c.column entry hentry
    (fun y hy => hfin y (mem_floats_iff.mpr ⟨c.column, entry, hentry, hy⟩)) i field hfield hname
    r hr x hx

/-- A file that a filter skips has no row that satisfies it. -/
theorem Snapshot.Valid.filter_skipped (h : s.Valid P cat) {filter : Option FilterExpression}
    {f : DataFileEntry × RecordBatch} (hf : f ∈ cat.files)
    (hskip : (filter.bind filterExpressionPruningPredicate).all
      (Query.shouldScanFile f.1.stats) = false) :
    (s.liveBatch f.2).rows.filter (selects (fullSchema s.schema) filter) = [] := by
  rw [List.filter_eq_nil_iff]
  intro r hr hsel
  cases filter with
  | none => cases hskip
  | some e =>
    cases hp : filterExpressionPruningPredicate e with
    | none => simp [hp] at hskip
    | some p =>
      have hscan := (h.fileStats f hf).cover.shouldScanFile (h.stats_finite hf) hp
        (List.mem_of_mem_filter hr) (by simpa [selects] using hsel)
      simp [hp, hscan] at hskip

/-! ### Scans -/

/-- What a scan request means: the filter on every live row, in scan order. -/
def Snapshot.answerScan (s : Snapshot) (rows : List Row) (request : ScanRequest) :
    Except QueryError ScanResult := do
  let schema ← s.querySchema
  let projection ← schema.validateScan request
  let rows ← engine ((rows.filter (selects (fullSchema s.schema) request.filter)).mapM
    (projectedRow (fullSchema s.schema) projection))
  return ⟨projection, rows⟩

theorem exists_scanColumns (hw : WellNamed s.schema) (h : s.querySchema = .ok q)
    {request : ScanRequest} (hp : q.validateProjection request.projection = .ok projection)
    (hf : ∀ f ∈ request.filter, f.All fun c => q.Has c.column c.value.logicalType) :
    ∃ requested ks,
      s.querySchemaForColumns (scanColumns projection request.filter) = .ok requested ∧
      QueryColumns s.schema (scanColumns projection request.filter) requested ks := by
  refine exists_queryColumns hw _
    (nodup_pushUniqueColumn (nodup_filterColumns? (nodup_foldl_pushUniqueColumn List.nodup_nil)))
    (mem_pushUniqueColumn.mpr (.inr rfl)) fun c hc => ?_
  rw [scanColumns, mem_pushUniqueColumn, mem_filterColumns?, mem_foldl_pushUniqueColumn] at hc
  rcases hc with ((hc | hc) | ⟨f, hmem, hc⟩) | hc
  · cases hc
  · exact .inr (exists_field_of_projection h hp hc)
  · exact .inr (exists_field_of_mentions h (hf f hmem) hc)
  · exact .inl hc

theorem mem_scanColumns_of_projection {filter : Option FilterExpression} (h : name ∈ projection) :
    name ∈ scanColumns projection filter :=
  mem_pushUniqueColumn.mpr (.inl (mem_filterColumns?.mpr
    (.inl (mem_foldl_pushUniqueColumn.mpr (.inr h)))))

theorem mem_scanColumns_of_mentions {filter : Option FilterExpression} (hf : f ∈ filter)
    (h : f.Mentions x) : x ∈ scanColumns projection filter :=
  mem_pushUniqueColumn.mpr (.inl (mem_filterColumns?.mpr (.inr ⟨f, hf, h⟩)))

/-- A filter on columns that are read is typed in what is read. -/
theorem QueryColumns.all_comparisonTyped (hq : QueryColumns s.schema columns requested ks)
    (hw : WellNamed s.schema) (hmentions : ∀ x, e.Mentions x → x ∈ columns)
    (htyped : e.All (ComparisonTyped (fullSchema s.schema))) :
    e.All (ComparisonTyped requested) :=
  (e.all_mentions.and htyped).imp fun c hc =>
    hq.toColumnsAt.comparisonTyped hw (hmentions c.column hc.1) hc.2

/-- Filtering and projecting one file read at the columns of the request. -/
theorem Snapshot.Valid.scanFile (h : s.Valid P cat) (hs : cat.StoredIn store)
    {f : DataFileEntry × RecordBatch} (hf : f ∈ cat.files)
    (hq : QueryColumns s.schema columns requested ks) {filter : Option FilterExpression}
    (hfilter : ∀ e ∈ filter, ∀ x, e.Mentions x → x ∈ columns)
    (htyped : ∀ e ∈ filter, e.All (ComparisonTyped (fullSchema s.schema)))
    (hproj : ∀ name ∈ projection, name ∈ columns) :
    s.readSurvivingFile store (some columns) (fun batch => do
        let batch ← castBatchToSchema P.kernels batch requested
        let filtered ← filterBatch batch filter
        projectedRows filtered projection) f.1 =
      ((s.liveBatch f.2).rows.filter (selects (fullSchema s.schema) filter)).mapM
        (projectedRow (fullSchema s.schema) projection) := by
  obtain ⟨b, hschema, hrows, hread⟩ := h.readSurvivingFile_columns hs hf hq
  have htyped' : ∀ e ∈ filter, e.All (ComparisonTyped b.schema) := by
    rw [hschema]
    exact fun e he => hq.all_comparisonTyped h.wellNamed (hfilter e he) (htyped e he)
  rw [hread, filterBatch_of_typed htyped', ok_bind, projectedRows, RecordBatch.filter_rows,
    RecordBatch.filter_schema, hrows, hschema, List.filter_map, List.mapM_map]
  have hsel : (s.liveBatch f.2).rows.filter (selects requested filter ∘ (Row.at · ks)) =
      (s.liveBatch f.2).rows.filter (selects (fullSchema s.schema) filter) :=
    List.filter_congr fun r _ => hq.toColumnsAt.selects_at h.wellNamed hfilter r
  rw [hsel]
  exact mapM_congr fun r _ => hq.toColumnsAt.projectedRow_at h.wellNamed hproj r

/-- A scan query is answered from the live rows; no pruning shows. -/
theorem Snapshot.Valid.scanQuery (h : s.Valid P cat) (hs : cat.StoredIn store)
    (request : ScanRequest) :
    s.scanQuery P store request = s.answerScan (cat.liveRows s.tombstones) request := by
  unfold Snapshot.scanQuery Snapshot.answerScan
  cases hquery : s.querySchema with
  | error e => rfl
  | ok q =>
    rw [ok_bind, ok_bind]
    cases hval : q.validateScan request with
    | error e => rfl
    | ok projection =>
      rw [ok_bind, ok_bind]
      simp only [DatasetSchema.validateScan, bind_eq_ok, pure_eq_ok] at hval
      obtain ⟨projection, hproj, _, hfil, rfl⟩ := hval
      have hfilter := DatasetSchema.validateFilter?_eq_ok hfil
      obtain ⟨requested, ks, hcols, hq⟩ := exists_scanColumns h.wellNamed hquery hproj hfilter
      dsimp only
      rw [hcols, engine_ok, ok_bind, h.readSurvivingFiles_mapM,
        mapM_congr fun f hf => h.scanFile hs (List.mem_of_mem_filter hf) hq
          (fun e he x hx => mem_scanColumns_of_mentions he hx)
          (fun e he => (hfilter e he).imp fun c hc =>
            comparisonTyped_of_has h.wellNamed hquery hc)
          (fun name hname => mem_scanColumns_of_projection hname),
        liveRows_eq_flatMap, List.filter_flatMap,
        ← flatMap_filter_of_nil fun f hf hskip => h.filter_skipped hf hskip, mapM_flatMap]
      exact engine_bind_map _ List.flatten fun rows => .ok (ScanResult.mk projection rows)

/-! ### Row sets of filters -/

theorem typedColumn_of_indexOf (hi : batch.schema.indexOf name = some i)
    (ht : batch.schema.typeAt i = t) (missing mistyped : TxnError) :
    typedColumn batch name t missing mistyped = .ok (batch.column i) := by
  simp [typedColumn, hi, ht, orElse, ensure, pure, Except.pure]

theorem map_filter_zip {γ : Type} (f : α → β) (g : α → Option Bool) (k : β → γ) (xs : List α) :
    (((xs.map f).zip (xs.map g)).filter fun p => p.2 = some true).map (fun p => k p.1) =
      (xs.filter fun x => g x = some true).map fun x => k (f x) := by
  rw [List.zip_map', List.filter_map, List.map_map]
  rfl

theorem Snapshot.Valid.liveSetFile (h : s.Valid P cat) (hs : cat.StoredIn store)
    {f : DataFileEntry × RecordBatch} (hf : f ∈ cat.files)
    (hq : QueryColumns s.schema columns requested ks) (hfilter : ∀ x, e.Mentions x → x ∈ columns)
    (htyped : e.All (ComparisonTyped (fullSchema s.schema))) :
    s.readSurvivingFile store (some columns) (fun batch => do
        let batch ← castBatchToSchema P.kernels batch requested
        let selection ← filterMask batch e
        let rowIds ← typedColumn batch rowIdColumn .uint64 (missingField rowIdColumn)
          (queryCastError rowIdColumn "UInt64")
        return ((rowIds.zip selection).filter fun p => p.2 = some true).map
          fun p => Cell.toRowId p.1) f.1 =
      .ok (((s.liveBatch f.2).rows.filter (selects (fullSchema s.schema) (some e))).map
        storedRowId) := by
  obtain ⟨b, hschema, hrows, hread⟩ := h.readSurvivingFile_columns hs hf hq
  obtain ⟨i, hi⟩ := hq.toColumnsAt.exists_indexOf hq.rowId_mem
  have htyped' : e.All (ComparisonTyped b.schema) := by
    rw [hschema]
    exact hq.all_comparisonTyped h.wellNamed hfilter htyped
  have hindex : b.schema.indexOf rowIdColumn = some i := by rw [hschema, hi]
  have htype : b.schema.typeAt i = .uint64 := by rw [hschema, hq.rowId_type h.wellNamed hi]
  rw [hread, filterMask_of_typed htyped', ok_bind, typedColumn_of_indexOf hindex htype, ok_bind,
    RecordBatch.column, hrows, hschema, List.map_map, List.map_map, map_filter_zip]
  have hsel : ∀ r, decide (e.eval (rowComparison requested (Row.at r ks)) = some true) =
      selects (fullSchema s.schema) (some e) r := fun r => by
    simp only [selects, Option.all_some, hq.toColumnsAt.eval_at h.wellNamed hfilter r]
  simp only [Function.comp_apply, hsel]
  refine congrArg Except.ok (List.map_congr_left fun r hr => ?_)
  have hr' := List.mem_of_mem_filter (List.mem_of_mem_filter hr)
  rw [hq.rowId_at h.wellNamed hi ((h.fileValid f hf).fits hr'), Cell.toRowId]

/-- The live set of a validated filter holds the ids of the live rows that satisfy
it. -/
theorem Snapshot.Valid.vectorFilterLiveSet (h : s.Valid P cat) (hs : cat.StoredIn store)
    (hquery : s.querySchema = .ok q) {u : Unit} (hval : q.validateFilter e = .ok u) :
    s.vectorFilterLiveSet P store e = .ok (LiveSet.fromRowIds
      (((cat.liveRows s.tombstones).filter (selects (fullSchema s.schema) (some e))).map
        storedRowId)) := by
  have hhas := DatasetSchema.validateFilter_eq_ok hval
  obtain ⟨requested, ks, hcols, hq⟩ := exists_queryColumns (s := s) h.wellNamed
    (pushUniqueColumn (filterColumns e []) rowIdColumn)
    (nodup_pushUniqueColumn (nodup_filterColumns List.nodup_nil))
    (mem_pushUniqueColumn.mpr (.inr rfl)) fun c hc => by
      rw [mem_pushUniqueColumn, mem_filterColumns] at hc
      rcases hc with (hc | hc) | hc
      · cases hc
      · exact .inr (exists_field_of_mentions hquery hhas hc)
      · exact .inl hc
  unfold Snapshot.vectorFilterLiveSet
  dsimp only
  rw [hcols, engine_ok, ok_bind, h.readSurvivingFiles_mapM,
    mapM_ok_of_forall fun f hf => h.liveSetFile hs (List.mem_of_mem_filter hf) hq
      (fun x hx => mem_pushUniqueColumn.mpr (.inl (mem_filterColumns.mpr (.inr hx))))
      (hhas.imp fun c hc => comparisonTyped_of_has h.wellNamed hquery hc),
    engine_ok, ok_bind, ← List.flatMap_def, liveRows_eq_flatMap, List.filter_flatMap,
    List.map_flatMap]
  refine congrArg (fun ids => Except.ok (LiveSet.fromRowIds ids)) ?_
  refine flatMap_filter_of_nil fun f hf hskip => ?_
  have hnil : (s.liveBatch f.2).rows.filter (selects (fullSchema s.schema) (some e)) = [] :=
    h.filter_skipped hf (by simpa using hskip)
  rw [hnil, List.map_nil]

/-- Pruning never changes what a typed filter shows: in every reachable state a scan
query evaluates its filter on every live row, in scan order, and the row set of a
valid filter holds the ids of exactly the live rows that satisfy it. -/
theorem typed_filters_unpruned {sys : System} (hreach : (system P).Reachable sys) {b : Snapshot}
    (hb : b ∈ sys.dataset.current :: sys.held) :
    ∃ whole, b.scan P sys.dataset.store (fullSchema b.schema) = .ok whole ∧
      (∀ request, b.scanQuery P sys.dataset.store request = b.answerScan whole.rows request) ∧
      ∀ q e u, b.querySchema = .ok q → q.validateFilter e = .ok u →
        ∃ live, b.vectorFilterLiveSet P sys.dataset.store e = .ok live ∧
          ∀ id, live.contains id = true ↔ ∃ r ∈ whole.rows,
            selects (fullSchema b.schema) (some e) r = true ∧ storedRowId r = id := by
  obtain ⟨cat, hv, hstored⟩ := (System.inv_of_reachable hreach).snapshot_valid hb
  obtain ⟨whole, hwhole, hrows⟩ := hv.scan_full hstored
  refine ⟨whole, hwhole, fun request => ?_, fun q e u hq he => ?_⟩
  · rw [hv.scanQuery hstored, hrows]
  · refine ⟨_, hv.vectorFilterLiveSet hstored hq he, fun id => ?_⟩
    rw [LiveSet.contains_fromRowIds, decide_eq_true_eq, hrows]
    simp [and_assoc]

/-- Rows between 25 and 40; the bounds of the first file rule it out. -/
def aboveFilter : FilterExpression :=
  .and (.compare ⟨"id", .greaterThan, .int64 25⟩) (.compare ⟨"id", .lessThan, .int64 40⟩)

theorem typed_filters_unpruned_twoFiles :
    ∃ s, plainRun idSchema twoFilesLabels = some s ∧
      s.dataset.current.manifest.dataFiles.map (fun e =>
        (filterExpressionPruningPredicate aboveFilter).all (shouldScanFile e.stats)) =
          [false, true] ∧
      (s.dataset.current.scanQuery plainPlatform s.dataset.store
        ⟨.all, some aboveFilter⟩).toOption = some ⟨["id"], [⟨[⟨"id", .int64 30⟩]⟩]⟩ ∧
      ∃ whole : RecordBatch, whole.rows.length = 4 ∧
        s.dataset.current.scanQuery plainPlatform s.dataset.store ⟨.all, some aboveFilter⟩ =
          s.dataset.current.answerScan whole.rows ⟨.all, some aboveFilter⟩ := by
  have hrun : (plainRun idSchema twoFilesLabels).map (fun s =>
      (s.dataset.current.manifest.dataFiles.map (fun e =>
          (filterExpressionPruningPredicate aboveFilter).all (shouldScanFile e.stats)),
        (s.dataset.current.scanQuery plainPlatform s.dataset.store
          ⟨.all, some aboveFilter⟩).toOption,
        (s.dataset.current.scan plainPlatform s.dataset.store
          (fullSchema s.dataset.current.schema)).toOption.map fun b => b.rows.length)) =
      some ([false, true], some ⟨["id"], [⟨[⟨"id", .int64 30⟩]⟩]⟩, some 4) := by
    decide +kernel
  obtain ⟨s, hs, hout⟩ := Option.map_eq_some_iff.mp hrun
  simp only [Prod.mk.injEq] at hout
  obtain ⟨hscanned, hresult, hcount⟩ := hout
  obtain ⟨whole, hwhole, hquery, -⟩ :=
    typed_filters_unpruned (reachable_runOn hs) List.mem_cons_self
  rw [hwhole] at hcount
  exact ⟨s, hs, hscanned, hresult, whole, by simpa [Except.toOption] using hcount, hquery _⟩

/-! ### Point lookups -/

/-- What a lookup shows of the row it finds. -/
def Snapshot.rowOutcome (s : Snapshot) (projection : List String) (r : Row) :
    Except TxnError RowLookupOutcome := do
  if s.isVisible (storedRowId r) then
    return .live (← projectedRow (fullSchema s.schema) projection r)
  else return .tombstoned

/-- What a lookup means: the row that has the id. -/
def Snapshot.answerLookup (s : Snapshot) (rows : List Row) (request : RowLookupRequest) :
    Except QueryError RowLookupResult := do
  let schema ← s.querySchema
  let projection ← schema.validateRowLookup request
  let outcome ← match rows.find? (storedRowId · == request.rowId) with
    | none => .ok .notFound
    | some r => engine (s.rowOutcome projection r)
  return ⟨request.rowId, projection, outcome⟩

theorem find_zip_map (f : α → β) (p : β → Bool) (xs : List α) :
    ((xs.zip (xs.map f)).find? fun q => p q.2) = (xs.find? fun x => p (f x)).map
      fun x => (x, f x) := by
  induction xs with
  | nil => rfl
  | cons x xs ih =>
    rw [List.map_cons, List.zip_cons_cons, List.find?_cons, List.find?_cons]
    cases hp : p (f x)
    · simpa using ih
    · rfl

theorem Snapshot.Valid.lookupFile (h : s.Valid P cat) (hs : cat.StoredIn store)
    {f : DataFileEntry × RecordBatch} (hf : f ∈ cat.files)
    (hq : QueryColumns s.schema columns requested ks) (hproj : ∀ name ∈ projection, name ∈ columns)
    (id : ℕ) :
    s.lookupFile P store columns requested projection id f.1 =
      match f.2.rows.find? (storedRowId · == id) with
      | none => .ok none
      | some r => (s.rowOutcome projection r).map some := by
  obtain ⟨raw, hraw, hrows, hmatch⟩ := h.readBatchColumns hs hf hq
  obtain ⟨b, hb, hschema, hbrows⟩ := castBatch_of_matches (K := P.kernels) raw
    (by rw [hq.names]; exact hq.nodup) (hmatch.imp fun _ _ hm => hm.1)
  obtain ⟨i, hi⟩ := hq.toColumnsAt.exists_indexOf hq.rowId_mem
  have hindex : b.schema.indexOf rowIdColumn = some i := by rw [hschema, hi]
  have htype : b.schema.typeAt i = .uint64 := by rw [hschema, hq.rowId_type h.wellNamed hi]
  have hid : ∀ r ∈ f.2.rows, Cell.toRowId (Row.cell (Row.at r ks) i) = storedRowId r := by
    intro r hr
    rw [hq.rowId_at h.wellNamed hi ((h.fileValid f hf).fits hr), Cell.toRowId]
  unfold Snapshot.lookupFile
  rw [hraw, ok_bind, hb, ok_bind, typedColumn_of_indexOf hindex htype, ok_bind,
    RecordBatch.column, find_zip_map (Row.cell · i) (fun c => Cell.toRowId c == id), hbrows, hrows,
    List.find?_map, Option.map_map]
  have hfind : f.2.rows.find? ((fun x => Cell.toRowId (Row.cell x i) == id) ∘ (Row.at · ks)) =
      f.2.rows.find? (storedRowId · == id) :=
    List.find?_congr fun r hr => by rw [Function.comp_apply, hid r hr]
  rw [hfind]
  cases hrow : f.2.rows.find? (storedRowId · == id) with
  | none => rfl
  | some r =>
    have hrid : storedRowId r = id := by simpa using List.find?_some hrow
    simp only [Option.map_some, Function.comp_apply, Snapshot.rowOutcome, hrid, hschema,
      hq.toColumnsAt.projectedRow_at h.wellNamed hproj r]
    split
    · cases projectedRow (fullSchema s.schema) projection r <;> rfl
    · rfl

theorem lookupFiles_eq {lookup : DataFileEntry → Except TxnError (Option RowLookupOutcome)}
    (outcome : Row → Except TxnError RowLookupOutcome) {id : ℕ}
    (files : List (DataFileEntry × RecordBatch))
    (hlook : ∀ f ∈ files, lookup f.1 = match f.2.rows.find? (storedRowId · == id) with
      | none => .ok none
      | some r => (outcome r).map some)
    (hskip : ∀ f ∈ files, Snapshot.coversRow f.1 id = false →
      f.2.rows.find? (storedRowId · == id) = none) :
    Snapshot.lookupFiles lookup ((files.map Prod.fst).filter (Snapshot.coversRow · id)) =
      match (files.flatMap fun f => f.2.rows).find? (storedRowId · == id) with
      | none => .ok .notFound
      | some r => outcome r := by
  induction files with
  | nil => rfl
  | cons f files ih =>
    rw [List.forall_mem_cons] at hlook hskip
    have ih := ih hlook.2 hskip.2
    rw [List.map_cons, List.filter_cons, List.flatMap_cons, List.find?_append]
    cases hcov : Snapshot.coversRow f.1 id with
    | false => simpa [hskip.1 hcov] using ih
    | true =>
      rw [if_pos rfl, Snapshot.lookupFiles, hlook.1]
      cases f.2.rows.find? (storedRowId · == id) with
      | none => simpa using ih
      | some r => cases hout : outcome r <;> simp [hout, Except.map, pure, Except.pure]

/-- A lookup finds the row with the id, wherever it is stored. -/
theorem Snapshot.Valid.lookupRow (h : s.Valid P cat) (hs : cat.StoredIn store)
    (request : RowLookupRequest) :
    s.lookupRow P store request = s.answerLookup cat.rows request := by
  unfold Snapshot.lookupRow Snapshot.answerLookup
  cases hquery : s.querySchema with
  | error e => rfl
  | ok q =>
    rw [ok_bind, ok_bind]
    cases hval : q.validateRowLookup request with
    | error e => rfl
    | ok projection =>
      rw [ok_bind, ok_bind]
      have hskip : ∀ f ∈ cat.files, Snapshot.coversRow f.1 request.rowId = false →
          f.2.rows.find? (storedRowId · == request.rowId) = none := by
        intro f hf hcov
        rw [List.find?_eq_none]
        intro r hr hid
        have hown : Snapshot.coversRow f.1 request.rowId = true :=
          (h.fileValid f hf).owns_iff.mpr (List.mem_map.mpr ⟨r, hr, by simpa using hid⟩)
        rw [hcov] at hown
        cases hown
      by_cases howns : s.ownsRow request.rowId = true
      · obtain ⟨requested, ks, hcols, hq⟩ := exists_queryColumns (s := s) h.wellNamed
          (pushUniqueColumn projection rowIdColumn)
          (nodup_pushUniqueColumn (DatasetSchema.validateProjection_nodup
            (querySchema_nodup h.wellNamed hquery) hval))
          (mem_pushUniqueColumn.mpr (.inr rfl)) fun c hc => by
            rw [mem_pushUniqueColumn] at hc
            exact hc.symm.imp id fun hc => exists_field_of_projection hquery hval hc
        have hfiles := lookupFiles_eq (s.rowOutcome projection) cat.files
          (fun f hf => h.lookupFile hs hf hq
            (fun name hname => mem_pushUniqueColumn.mpr (.inl hname)) request.rowId) hskip
        dsimp only
        rw [if_neg (by simp [howns]), hcols, engine_ok, ok_bind, h.files_eq, hfiles,
          show (cat.files.flatMap fun f => f.2.rows) = cat.rows from rfl]
        cases cat.rows.find? (storedRowId · == request.rowId) <;> rfl
      · have hnone : cat.rows.find? (storedRowId · == request.rowId) = none := by
          rw [List.find?_eq_none]
          intro r hr hid
          exact howns (h.ownsRow_iff.mpr (List.mem_map.mpr ⟨r, hr, by simpa using hid⟩))
        rw [if_pos (by simpa using howns), hnone]
        rfl

end StrataDB.Txn
