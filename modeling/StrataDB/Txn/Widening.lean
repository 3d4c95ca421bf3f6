import StrataDB.Txn.Migrated
import StrataDB.Txn.GroupedReads
import StrataDB.Txn.VectorResults

/-! Queries across a migration. The new column stands before the hidden ones and holds
nulls, so what a request reads of the other columns is the same; the segments are
copies. Files are pruned by statistics that the migration computes anew from the stored
columns, but pruning never shows in a typed query. -/

namespace StrataDB.Txn

open Lib Arrow Index Storage Query

variable {P : Platform} {schema : Schema} {column : Field} {r : Row}

/-! ### Columns other than the new one -/

variable {name : String} {projection : List String} {q : DatasetSchema}

/-- A name other than the new one is found at the column that it named before, or not at
all. -/
theorem indexOf_withColumn (schema : Schema) (hne : name ≠ column.name) :
    ((fullSchema (withColumn schema column)).indexOf name = none ∧
      (fullSchema schema).indexOf name = none) ∨
    ∃ i j, (fullSchema (withColumn schema column)).indexOf name = some j ∧
      (fullSchema schema).indexOf name = some i ∧
      (fullSchema (withColumn schema column)).typeAt j = (fullSchema schema).typeAt i ∧
      ∀ r, fitsFields (fullFields schema) r = true →
        Row.cell (migratedRow r) j = Row.cell r i := by
  have hnew : (fullSchema (withColumn schema column)).fields =
      schema.fields ++ column :: [rowIdField, timestampField] := by
    simp [fullSchema, withColumn]
  have hold : (fullSchema schema).fields = schema.fields ++ [rowIdField, timestampField] := rfl
  have hskip : (column.name == name) = false := beq_false_of_ne hne.symm
  have hsome : ∀ {k}, (schema.fields.findIdx? fun f => f.name == name) = some k →
      k < schema.fields.length := fun hk => (List.findIdx?_eq_some_iff_getElem.mp hk).1
  unfold Schema.indexOf Schema.typeAt
  rw [hnew, hold, List.findIdx?_append, List.findIdx?_append, List.findIdx?_cons, hskip,
    if_neg Bool.false_ne_true]
  cases hk : schema.fields.findIdx? fun f => f.name == name with
  | some k =>
    refine .inr ⟨k, k, rfl, rfl, ?_, fun r hr => cell_migratedRow hr (hsome hk)⟩
    rw [List.getElem?_append_left (hsome hk), List.getElem?_append_left (hsome hk)]
  | none =>
    cases hh : [rowIdField, timestampField].findIdx? fun f => f.name == name with
    | none => exact .inl ⟨rfl, rfl⟩
    | some h =>
      refine .inr ⟨h + schema.fields.length, h + 1 + schema.fields.length, rfl, rfl, ?_,
        fun r hr => ?_⟩
      · rw [List.getElem?_append_right (by omega), List.getElem?_append_right (by omega),
          Nat.add_sub_cancel, Nat.add_sub_cancel, List.getElem?_cons_succ]
      · rw [cell_migratedRow_hidden hr (by omega)]
        congr 1
        omega

theorem columnValue_migratedRow (hr : fitsFields (fullFields schema) r = true)
    (hne : name ≠ column.name) :
    columnValue (fullSchema (withColumn schema column)) (migratedRow r) name =
      columnValue (fullSchema schema) r name := by
  unfold columnValue
  rcases indexOf_withColumn schema hne with ⟨hnew, hold⟩ | ⟨i, j, hnew, hold, htype, hcell⟩
  · rw [hnew, hold]
    rfl
  · rw [hnew, hold, orElse, orElse, ok_bind, ok_bind, htype, hcell r hr]

theorem rowComparison_migratedRow (hr : fitsFields (fullFields schema) r = true) {c : Comparison}
    (hne : c.column ≠ column.name) :
    rowComparison (fullSchema (withColumn schema column)) (migratedRow r) c =
      rowComparison (fullSchema schema) r c := by
  unfold rowComparison
  rcases indexOf_withColumn schema hne with ⟨hnew, hold⟩ | ⟨i, j, hnew, hold, -, hcell⟩
  · rw [hnew, hold]
    rfl
  · rw [hnew, hold, Option.bind_some, Option.bind_some, hcell r hr]

theorem selects_migratedRow (hr : fitsFields (fullFields schema) r = true)
    {filter : Option FilterExpression} (hf : ∀ f ∈ filter, ¬ f.Mentions column.name) :
    selects (fullSchema (withColumn schema column)) filter (migratedRow r) =
      selects (fullSchema schema) filter r := by
  cases filter with
  | none => rfl
  | some f =>
    have heval : f.eval (rowComparison (fullSchema (withColumn schema column)) (migratedRow r)) =
        f.eval (rowComparison (fullSchema schema) r) := by
      refine FilterExpression.eval_congr (f.all_mentions.imp fun c hc => ?_)
      refine rowComparison_migratedRow hr fun heq => hf f rfl ?_
      rwa [← heq]
    simp only [selects, Option.all_some, heval]

theorem projectedRow_migratedRow (hr : fitsFields (fullFields schema) r = true)
    (hp : column.name ∉ projection) :
    projectedRow (fullSchema (withColumn schema column)) projection (migratedRow r) =
      projectedRow (fullSchema schema) projection r := by
  unfold projectedRow
  refine congrArg (· >>= _) (mapM_congr fun name hname => ?_)
  rw [columnValue_migratedRow hr (ne_of_mem_of_not_mem hname hp)]

theorem filter_migratedRow {rows : List Row}
    (hrows : ∀ r ∈ rows, fitsFields (fullFields schema) r = true)
    {filter : Option FilterExpression} (hf : ∀ f ∈ filter, ¬ f.Mentions column.name) :
    (rows.map migratedRow).filter (selects (fullSchema (withColumn schema column)) filter) =
      (rows.filter (selects (fullSchema schema) filter)).map migratedRow := by
  rw [List.filter_map]
  exact congrArg _ (List.filter_congr fun r hr => selects_migratedRow (hrows r hr) hf)

/-! ### The columns of requests -/

/-- The projection names its columns, and not this one. -/
def Projection.Avoids (name : String) : Projection → Prop
  | .all => False
  | .columns names => name ∉ names

theorem not_mem_of_validateProjection {p : Projection} (hp : p.Avoids name)
    (hval : q.validateProjection p = .ok projection) : name ∉ projection := by
  cases p with
  | all => exact hp.elim
  | columns names =>
    obtain ⟨_, -, hnames⟩ := bind_eq_ok.mp hval
    cases hnames
    exact hp

/-- Two schemas with the same columns but for this name. -/
def SameColumns (name : String) (q q' : DatasetSchema) : Prop :=
  ∀ x ≠ name, q'.column x = q.column x

namespace SameColumns

variable {name : String} {q q' : DatasetSchema}

theorem validateProjection (h : SameColumns name q q') {p : Projection} (hp : p.Avoids name) :
    q'.validateProjection p = q.validateProjection p := by
  have hgo : ∀ {rest seen : List String}, name ∉ rest →
      DatasetSchema.validateProjection.go q' seen rest =
        DatasetSchema.validateProjection.go q seen rest := by
    intro rest
    induction rest with
    | nil => exact fun _ => rfl
    | cons n rest ih =>
      intro seen hn
      rw [List.mem_cons, not_or] at hn
      rw [DatasetSchema.validateProjection.go, DatasetSchema.validateProjection.go,
        h n (Ne.symm hn.1), ih hn.2]
  cases p with
  | all => exact hp.elim
  | columns names =>
    rw [DatasetSchema.validateProjection, DatasetSchema.validateProjection, hgo hp]

theorem validateFilter (h : SameColumns name q q') {f : FilterExpression}
    (hf : ¬ f.Mentions name) : q'.validateFilter f = q.validateFilter f := by
  induction f with
  | compare c =>
    rw [DatasetSchema.validateFilter, DatasetSchema.validateFilter,
      DatasetSchema.validateComparison, DatasetSchema.validateComparison, h c.column (Ne.symm hf)]
  | and l r ihl ihr =>
    rw [DatasetSchema.validateFilter, DatasetSchema.validateFilter,
      ihl fun hl => hf (.inl hl), ihr fun hr => hf (.inr hr)]
  | or l r ihl ihr =>
    rw [DatasetSchema.validateFilter, DatasetSchema.validateFilter,
      ihl fun hl => hf (.inl hl), ihr fun hr => hf (.inr hr)]
  | not e ih => exact ih hf

theorem validateFilter? (h : SameColumns name q q') {filter : Option FilterExpression}
    (hf : ∀ f ∈ filter, ¬ f.Mentions name) :
    q'.validateFilter? filter = q.validateFilter? filter := by
  cases filter with
  | none => rfl
  | some f => exact h.validateFilter (hf f rfl)

variable {names : List String}

theorem validateGroupColumns (h : SameColumns name q q') {columns : List String}
    (hc : name ∉ columns) :
    q'.validateGroupColumns names columns = q.validateGroupColumns names columns := by
  induction columns generalizing names with
  | nil => rfl
  | cons c columns ih =>
    rw [List.mem_cons, not_or] at hc
    rw [DatasetSchema.validateGroupColumns, DatasetSchema.validateGroupColumns,
      h c (Ne.symm hc.1), ih hc.2]

theorem validateAggregates (h : SameColumns name q q') {aggregates : List Aggregate}
    (ha : ∀ a ∈ aggregates, a.column ≠ name) :
    q'.validateAggregates names aggregates = q.validateAggregates names aggregates := by
  induction aggregates generalizing names with
  | nil => rfl
  | cons a aggregates ih =>
    rw [List.forall_mem_cons] at ha
    rw [DatasetSchema.validateAggregates, DatasetSchema.validateAggregates, h a.column ha.1,
      ih ha.2]

end SameColumns

theorem new_go_append {new : LogicalColumn} (hhidden : new.name ∉ hiddenColumns)
    (hzero : new.dataType ≠ .vector 0) {columns : List LogicalColumn} {names : List String}
    (hnames : new.name ∉ names) (hcolumns : ∀ c ∈ columns, c.name ≠ new.name) :
    DatasetSchema.new.go names (columns ++ [new]) = DatasetSchema.new.go names columns := by
  induction columns generalizing names with
  | nil =>
    change DatasetSchema.new.go names [new] = .ok ()
    simp only [DatasetSchema.new.go, validateUserColumnName, bind_eq_ok, require_eq_ok]
    exact ⟨(), hhidden, (), hzero, (), hnames, trivial⟩
  | cons c columns ih =>
    rw [List.forall_mem_cons] at hcolumns
    have hfresh : new.name ∉ c.name :: names := by simp [hnames, Ne.symm hcolumns.1]
    have hrest := ih hfresh hcolumns.2
    rw [List.cons_append, DatasetSchema.new.go, DatasetSchema.new.go, hrest]

theorem sameColumns_append (new : LogicalColumn) : SameColumns new.name q ⟨q.columns ++ [new]⟩ := by
  intro x hx
  have hskip : (new.name == x) = false := beq_false_of_ne (Ne.symm hx)
  rw [DatasetSchema.column, DatasetSchema.column, List.find?_append]
  simp [hskip]

/-- The query schema with the new column, of a type that queries know. -/
theorem querySchema_withColumn {s s' : Snapshot} (hschema : s'.schema = withColumn s.schema column)
    (hw : WellNamed s'.schema) {t : LogicalType} (ht : logicalType column.dataType = .ok t)
    (hzero : t ≠ .vector 0) :
    (∃ e, s.querySchema = .error e ∧ s'.querySchema = .error e) ∨
      ∃ q q', s.querySchema = .ok q ∧ s'.querySchema = .ok q' ∧ SameColumns column.name q q' := by
  have hfields : s'.schema.fields = s.schema.fields ++ [column] := by rw [hschema]; rfl
  obtain ⟨hnodup, hhidden⟩ := hw
  rw [hfields] at hnodup hhidden
  unfold Snapshot.querySchema
  rw [hfields, List.mapM_append]
  cases hmap : s.schema.fields.mapM fun field => (do
      return LogicalColumn.mk field.name (← logicalType field.dataType) field.nullable :
        Except TxnError LogicalColumn) with
  | error e => exact .inl ⟨.execution (.engine e), rfl, rfl⟩
  | ok columns =>
    have hnames : columns.map LogicalColumn.name = s.schema.fields.map Field.name := by
      refine map_eq_of_forall₂ ((mapM_eq_ok.mp hmap).imp fun f c hc => ?_)
      simp only [bind_eq_ok, pure_eq_ok] at hc
      obtain ⟨_, -, rfl⟩ := hc
      rfl
    let new : LogicalColumn := ⟨column.name, t, column.nullable⟩
    have hnew : ∀ c ∈ columns, c.name ≠ new.name := by
      intro c hc heq
      rw [List.map_append, List.nodup_append] at hnodup
      refine hnodup.2.2 c.name ?_ column.name (by simp) heq
      rw [← hnames]
      exact List.mem_map_of_mem hc
    have hfresh : new.name ∉ hiddenColumns := hhidden column (by simp)
    have hgo := new_go_append hfresh hzero List.not_mem_nil hnew
    simp only [List.mapM_cons, List.mapM_nil, ht, ok_bind, engine_ok]
    change (∃ e, DatasetSchema.new columns = .error e ∧
        DatasetSchema.new (columns ++ [new]) = .error e) ∨
      ∃ q q', DatasetSchema.new columns = .ok q ∧ DatasetSchema.new (columns ++ [new]) = .ok q' ∧
        SameColumns column.name q q'
    unfold DatasetSchema.new
    rw [hgo]
    cases DatasetSchema.new.go [] columns with
    | error e => exact .inl ⟨e, rfl, rfl⟩
    | ok u => exact .inr ⟨⟨columns⟩, ⟨columns ++ [new]⟩, rfl, rfl, sameColumns_append new⟩

/-! ### The version before and the version after -/

/-- The column has a type that queries know. -/
def Queryable (column : Field) : Prop :=
  ∃ t, logicalType column.dataType = .ok t ∧ t ≠ .vector 0

/-- `s'` shows what `s` shows, with nulls in one more column. -/
structure Widens (P : Platform) (column : Field) (s s' : Snapshot) (cat cat' : Catalog) : Prop where
  valid : s.Valid P cat
  valid' : s'.Valid P cat'
  schema : s'.schema = withColumn s.schema column
  tombstones : s'.tombstones = s.tombstones
  index : s'.index = s.index
  files : List.Forall₂ (fun f f' => f'.2.rows = f.2.rows.map migratedRow) cat.files cat'.files

theorem Migrates.widens {d d₁ : Dataset} {cat cat' : Catalog} {ts : ℤ}
    (h : Migrates P d d₁ cat column cat') (hv : (migrated d column ts cat').Valid P cat') :
    Widens P column d.current (migrated d column ts cat') cat cat' where
  valid := h.source
  valid' := hv
  schema := rfl
  tombstones := rfl
  index := by
    rw [h.source.index_eq]
    change cat'.parts = cat.parts
    rw [Catalog.parts, Catalog.parts]
    conv_rhs => rw [← List.zipIdx_map_fst 0 cat.segments, List.map_map]
    refine map_eq_of_forall₂ (h.segments.imp fun p g hg => ?_)
    exact congrArg (fun g => (g.2, g.1.zoneMap)) hg
  files := by
    rw [← List.zipIdx_map_fst 0 cat.files, List.forall₂_map_left_iff]
    exact h.files.imp fun p f hf => hf.rows

namespace Widens

variable {s s' : Snapshot} {cat cat' : Catalog} {store store' : Store}

section

variable (h : Widens P column s s' cat cat')

include h

theorem rows_eq : cat'.rows = cat.rows.map migratedRow := by
  rw [Catalog.rows, Catalog.rows, List.map_flatMap]
  exact flatMap_eq_of_forall₂ h.files

theorem fits {r : Row} (hr : r ∈ cat.rows) : fitsFields (fullFields s.schema) r = true :=
  Catalog.fits h.valid hr

theorem storedRowId_eq {r : Row} (hr : r ∈ cat.rows) :
    storedRowId (migratedRow r) = storedRowId r :=
  storedRowId_migratedRow (h.fits hr)

theorem live_eq {rows : List Row} (hrows : ∀ r ∈ rows, r ∈ cat.rows) :
    (rows.map migratedRow).filter (fun r => storedRowId r ∉ s'.tombstones) =
      (rows.filter fun r => storedRowId r ∉ s.tombstones).map migratedRow := by
  rw [List.filter_map]
  refine congrArg _ (List.filter_congr fun r hr => ?_)
  rw [Function.comp_apply, h.storedRowId_eq (hrows r hr), h.tombstones]

theorem liveRows_eq :
    cat'.liveRows s'.tombstones = (cat.liveRows s.tombstones).map migratedRow := by
  rw [Catalog.liveRows, Catalog.liveRows, h.rows_eq]
  exact h.live_eq fun _ hr => hr

theorem isVisible_eq : s'.isVisible = s.isVisible := by
  funext i
  rw [Snapshot.isVisible, Snapshot.isVisible, h.tombstones]

/-! #### Scans -/

theorem projectionField_eq {field : Field} (hne : field.name ≠ column.name) :
    s'.projectionField field = s.projectionField field := by
  have hskip : (column.name == field.name) = false := beq_false_of_ne hne.symm
  have hfind : s'.schema.fieldWithName field.name = s.schema.fieldWithName field.name := by
    rw [h.schema, Schema.fieldWithName, Schema.fieldWithName, withColumn, List.find?_append]
    simp [hskip]
  rw [Snapshot.projectionField, Snapshot.projectionField, hfind]

variable {requested : Schema}

theorem validateProjectionSchema_eq (hr : ∀ f ∈ requested.fields, f.name ≠ column.name) :
    s'.validateProjectionSchema requested = s.validateProjectionSchema requested := by
  have hmeta : s'.schema.metadata = s.schema.metadata := by rw [h.schema]; rfl
  rw [Snapshot.validateProjectionSchema, Snapshot.validateProjectionSchema, hmeta]
  refine congrArg (_ >>= ·) (funext fun _ => forM_congr fun f hf => ?_)
  rw [h.projectionField_eq (hr f hf)]

theorem at_migratedRow (hr : ∀ f ∈ requested.fields, f.name ≠ column.name) {row : Row}
    (hrow : row ∈ cat.rows) {u : Unit} (hval : s.validateProjectionSchema requested = .ok u) :
    Row.at (migratedRow row) (positions s'.schema requested) =
      Row.at row (positions s.schema requested) := by
  have hks := validateProjectionSchema_eq_ok h.valid.wellNamed hval
  rw [positions, List.forall₂_map_right_iff, List.forall₂_same] at hks
  rw [Row.at, Row.at, positions, positions, List.map_map, List.map_map, h.schema]
  refine List.map_congr_left fun f hf => ?_
  rw [Function.comp_apply, Function.comp_apply]
  rcases indexOf_withColumn s.schema (hr f hf) with ⟨-, hold⟩ | ⟨i, j, hnew, hold, -, hcell⟩
  · -- a requested field is one of the snapshot
    have hmem := List.mem_of_getElem? (hks f hf)
    rw [Schema.indexOf, List.findIdx?_eq_none_iff] at hold
    exact absurd (beq_self_eq_true f.name) (by simpa using hold f hmem)
  · rw [hnew, hold]
    exact hcell row (h.fits hrow)

theorem scan_eq (hs : cat.StoredIn store) (hs' : cat'.StoredIn store')
    (hr : ∀ f ∈ requested.fields, f.name ≠ column.name) :
    s'.scan P store' requested = s.scan P store requested := by
  cases hval : s.validateProjectionSchema requested with
  | error e =>
    rw [Snapshot.scan, Snapshot.scan, h.validateProjectionSchema_eq hr, hval]
    rfl
  | ok u =>
    have hval' : s'.validateProjectionSchema requested = .ok u := by
      rw [h.validateProjectionSchema_eq hr, hval]
    rw [h.valid.scan_of_valid hs hval, h.valid'.scan_of_valid hs' hval', h.liveRows_eq,
      List.map_map]
    refine congrArg (fun rows => lift .arrow (RecordBatch.tryNewWithOptions requested rows))
      (List.map_congr_left fun row hrow => ?_)
    exact h.at_migratedRow hr (List.mem_of_mem_filter hrow) hval

/-- Both versions filter their scans alike, as long as no file is left out wrongly. -/
theorem scanWithPredicate_eq (hs : cat.StoredIn store) (hs' : cat'.StoredIn store') {p : Predicate}
    {full result : RecordBatch} (hr : ∀ f ∈ requested.fields, f.name ≠ column.name)
    (hagree : ∀ r ∈ cat.liveRows s.tombstones, p.All (LeafAgrees (fullSchema s.schema) r))
    (hscan : s.scan P store requested = .ok full) (hfilter : filter full p = .ok result) :
    s'.scanWithPredicate P store' requested p = s.scanWithPredicate P store requested p := by
  rw [h.valid.scanWithPredicate_of_agrees hs hagree hscan hfilter]
  obtain ⟨hks, hschema, -⟩ := h.valid.scan_eq_ok hs hscan
  obtain ⟨htyped, -⟩ := filter_eq_ok.mp hfilter
  rw [hschema] at htyped
  refine h.valid'.scanWithPredicate_of_agrees hs' ?_ (by rwa [h.scan_eq hs hs' hr]) hfilter
  rw [h.liveRows_eq, List.forall_mem_map, h.schema]
  intro r hrow
  have hfits := h.fits (List.mem_of_mem_filter hrow)
  refine (htyped.and (hagree r hrow)).imp fun op c v ⟨ht, ha⟩ j hj => ?_
  obtain ⟨k, hk, -⟩ := ht
  obtain ⟨f, hf, rfl, -⟩ := indexOf_eq_some hk
  rcases indexOf_withColumn s.schema (hr f (List.mem_of_getElem? hf)) with
    ⟨hnew, -⟩ | ⟨i, j', hnew, hold, -, hcell⟩
  · rw [hnew] at hj
    cases hj
  · rw [hnew] at hj
    cases hj
    rw [hcell r hfits]
    exact ha i hold

/-! #### Typed queries -/

section

variable (hq : Queryable column)

include hq

theorem querySchema_cases :
    (∃ e, s.querySchema = .error e ∧ s'.querySchema = .error e) ∨
      ∃ q q', s.querySchema = .ok q ∧ s'.querySchema = .ok q' ∧ SameColumns column.name q q' := by
  obtain ⟨t, ht, hzero⟩ := hq
  exact querySchema_withColumn h.schema h.valid'.wellNamed ht hzero

theorem scanQuery_eq (hs : cat.StoredIn store) (hs' : cat'.StoredIn store')
    {request : ScanRequest} (hp : request.projection.Avoids column.name)
    (hf : ∀ f ∈ request.filter, ¬ f.Mentions column.name) :
    s'.scanQuery P store' request = s.scanQuery P store request := by
  rw [h.valid.scanQuery hs, h.valid'.scanQuery hs', h.liveRows_eq]
  unfold Snapshot.answerScan
  rcases h.querySchema_cases hq with ⟨e, he, he'⟩ | ⟨q, q', he, he', hsame⟩
  · rw [he, he']
    rfl
  · have hfits : ∀ r ∈ cat.liveRows s.tombstones, fitsFields (fullFields s.schema) r = true :=
      fun r hr => h.fits (List.mem_of_mem_filter hr)
    rw [he, he', ok_bind, ok_bind, h.schema, filter_migratedRow hfits hf]
    have hval : q'.validateScan request = q.validateScan request := by
      rw [DatasetSchema.validateScan, DatasetSchema.validateScan, hsame.validateProjection hp,
        hsame.validateFilter? hf]
    rw [hval]
    cases hproj : q.validateScan request with
    | error e => rfl
    | ok projection =>
      obtain ⟨names, hnames, hrest⟩ := bind_eq_ok.mp hproj
      obtain ⟨_, -, hlast⟩ := bind_eq_ok.mp hrest
      cases hlast
      have hnot := not_mem_of_validateProjection hp hnames
      have hproject := mapM_congr fun r hr => projectedRow_migratedRow
        (hfits r (List.mem_of_mem_filter (p := selects (fullSchema s.schema) request.filter) hr))
        hnot
      rw [ok_bind, ok_bind, List.mapM_map]
      exact congrArg (fun rows => engine rows >>= _) hproject

theorem lookupRow_eq (hs : cat.StoredIn store) (hs' : cat'.StoredIn store')
    {request : RowLookupRequest} (hp : request.projection.Avoids column.name) :
    s'.lookupRow P store' request = s.lookupRow P store request := by
  rw [h.valid.lookupRow hs, h.valid'.lookupRow hs', h.rows_eq]
  unfold Snapshot.answerLookup
  rcases h.querySchema_cases hq with ⟨e, he, he'⟩ | ⟨q, q', he, he', hsame⟩
  · rw [he, he']
    rfl
  · have hval : q'.validateRowLookup request = q.validateRowLookup request := by
      rw [DatasetSchema.validateRowLookup, DatasetSchema.validateRowLookup,
        hsame.validateProjection hp]
    rw [he, he', ok_bind, ok_bind, hval]
    cases hproj : q.validateRowLookup request with
    | error e => rfl
    | ok projection =>
      have hnot := not_mem_of_validateProjection hp hproj
      rw [ok_bind, ok_bind, List.find?_map]
      have hsameRow : cat.rows.find? ((storedRowId · == request.rowId) ∘ migratedRow) =
          cat.rows.find? (storedRowId · == request.rowId) := by
        refine List.find?_congr fun r hr => ?_
        rw [Function.comp_apply, h.storedRowId_eq hr]
      rw [hsameRow]
      cases hfind : cat.rows.find? (storedRowId · == request.rowId) with
      | none => rfl
      | some r =>
        have hr := List.mem_of_find?_eq_some hfind
        have hout : s'.rowOutcome projection (migratedRow r) = s.rowOutcome projection r := by
          rw [Snapshot.rowOutcome, Snapshot.rowOutcome, h.isVisible_eq, h.storedRowId_eq hr,
            h.schema, projectedRow_migratedRow (h.fits hr) hnot]
        rw [Option.map_some]
        dsimp only
        rw [hout]

/-! #### Groups -/

variable {F : FloatOps} {request : GroupByRequest} {D : Distances}

omit hq in
/-- A row goes to the group that it went to, with the same inputs. -/
theorem addRow_eq (hkeys : column.name ∉ request.groupBy)
    (hinputs : ∀ a ∈ request.aggregates, a.column ≠ column.name) (templates : List AggregateState)
    (groups : Groups) {r : Row} (hr : r ∈ cat.rows) :
    addRow F request templates (fullSchema s'.schema) groups (migratedRow r) =
      addRow F request templates (fullSchema s.schema) groups r := by
  have hupdate : updateGroup F request (fullSchema s'.schema) (migratedRow r) =
      updateGroup F request (fullSchema s.schema) r := by
    funext group
    unfold updateGroup
    refine congrArg (· >>= _) (mapM_congr ?_)
    rintro ⟨a, state⟩ hp
    simp only [h.schema, columnValue_migratedRow (h.fits hr) (hinputs a (List.of_mem_zip hp).1)]
  rw [Txn.addRow, Txn.addRow, hupdate, h.schema,
    mapM_congr fun c hc => columnValue_migratedRow (h.fits hr) (ne_of_mem_of_not_mem hc hkeys)]

omit hq in
theorem groupFiles_eq {F : FloatOps} {request : GroupByRequest}
    (hkeys : column.name ∉ request.groupBy) (hinputs : ∀ a ∈ request.aggregates,
      a.column ≠ column.name) (templates : List AggregateState) {files : List (List Row)}
    (hrows : ∀ rows ∈ files, ∀ r ∈ rows, r ∈ cat.rows) :
    groupFiles F request templates (fullSchema s'.schema) (files.map (·.map migratedRow)) =
      groupFiles F request templates (fullSchema s.schema) files := by
  rw [groupFiles, groupFiles, List.foldlM_map]
  refine foldlM_congr (fun groups rows hmem => ?_) []
  rw [List.foldlM_map]
  refine congrArg (· >>= _) (foldlM_congr (fun groups r hr => ?_) [])
  exact h.addRow_eq hkeys hinputs templates groups (hrows rows hmem r hr)

omit hq in
theorem groupedFiles_eq {request : GroupByRequest}
    (hf : ∀ f ∈ request.filter, ¬ f.Mentions column.name) :
    s'.groupedFiles cat' request = (s.groupedFiles cat request).map (·.map migratedRow) := by
  rw [Snapshot.groupedFiles, Snapshot.groupedFiles, List.map_map]
  have hfiles := (List.forall₂_and_left cat.files cat'.files).mpr
    ⟨fun f hf => hf, h.files⟩
  refine map_eq_of_forall₂ (hfiles.imp fun f f' hpair => ?_)
  obtain ⟨hmem, hrows⟩ := hpair
  have hmem : ∀ r ∈ f.2.rows, r ∈ cat.rows := fun r hr => List.mem_flatMap.mpr ⟨f, hmem, hr⟩
  rw [Function.comp_apply, Snapshot.liveBatch, Snapshot.liveBatch, RecordBatch.filter_rows,
    RecordBatch.filter_rows, hrows, h.live_eq hmem, h.schema]
  exact filter_migratedRow (fun r hr => h.fits (hmem r (List.mem_of_mem_filter hr))) hf

theorem groupByQuery_eq (hs : cat.StoredIn store) (hs' : cat'.StoredIn store')
    (hkeys : column.name ∉ request.groupBy)
    (hinputs : ∀ a ∈ request.aggregates, a.column ≠ column.name)
    (hf : ∀ f ∈ request.filter, ¬ f.Mentions column.name) :
    s'.groupByQuery P F store' request = s.groupByQuery P F store request := by
  rw [h.valid.groupByQuery hs, h.valid'.groupByQuery hs', h.groupedFiles_eq hf]
  unfold Snapshot.answerGroupBy
  rcases h.querySchema_cases hq with ⟨e, he, he'⟩ | ⟨q, q', he, he', hsame⟩
  · rw [he, he']
    rfl
  · have hval : q'.validateGroupBy request = q.validateGroupBy request := by
      rw [DatasetSchema.validateGroupBy, DatasetSchema.validateGroupBy,
        hsame.validateGroupColumns hkeys, hsame.validateFilter? hf]
      simp only [hsame.validateAggregates hinputs]
    have hmem : ∀ rows ∈ s.groupedFiles cat request, ∀ r ∈ rows, r ∈ cat.rows := by
      intro rows hrows r hr
      have hlive : r ∈ (s.groupedFiles cat request).flatten := List.mem_flatten.mpr ⟨_, hrows, hr⟩
      rw [groupedFiles_flatten] at hlive
      exact List.mem_of_mem_filter (List.mem_of_mem_filter hlive)
    rw [he, he', ok_bind, ok_bind, hval]
    simp only [h.groupFiles_eq hkeys hinputs _ hmem]

/-! #### Vectors -/

theorem hydrate_eq (hs : cat.StoredIn store) (hs' : cat'.StoredIn store')
    {projection : Option (List String)} (hp : ∀ names ∈ projection, column.name ∉ names)
    (rowId : ℕ) :
    s'.hydrate P store' projection rowId = s.hydrate P store projection rowId := by
  cases projection with
  | none => rfl
  | some names =>
    have hlookup : s'.lookupRow P store' ⟨rowId, .columns names⟩ =
        s.lookupRow P store ⟨rowId, .columns names⟩ := h.lookupRow_eq hq hs hs' (hp names rfl)
    rw [Snapshot.hydrate, Snapshot.hydrate, hlookup]

omit hq in
/-- The filter of a vector search admits the rows that it admitted. -/
theorem vectorMatches_eq (hs : cat.StoredIn store) (hs' : cat'.StoredIn store')
    {request : VectorSearchRequest} (hf : ∀ f ∈ request.filter, ¬ f.Mentions column.name)
    {q q' : DatasetSchema} (hquery : s.querySchema = .ok q) (hquery' : s'.querySchema = .ok q')
    (hval : q.validateFilter? request.filter = .ok ())
    (hval' : q'.validateFilter? request.filter = .ok ())
    (permits : FilterExpression → Stats → Bool) :
    s'.vectorMatches P D store' request permits = s.vectorMatches P D store request permits := by
  unfold Snapshot.vectorMatches
  rw [h.index, h.isVisible_eq]
  cases hfilter : request.filter with
  | none => rfl
  | some e =>
    rw [hfilter] at hval hval' hf
    have hfits : ∀ r ∈ cat.liveRows s.tombstones, fitsFields (fullFields s.schema) r = true :=
      fun r hr => h.fits (List.mem_of_mem_filter hr)
    have hids : s'.vectorFilterLiveSet P store' e = s.vectorFilterLiveSet P store e := by
      rw [h.valid.vectorFilterLiveSet hs hquery hval,
        h.valid'.vectorFilterLiveSet hs' hquery' hval', h.liveRows_eq, h.schema,
        filter_migratedRow hfits hf, List.map_map]
      refine congrArg (fun ids => Except.ok (LiveSet.fromRowIds ids))
        (List.map_congr_left fun r hr => ?_)
      exact h.storedRowId_eq (List.mem_of_mem_filter (List.mem_of_mem_filter hr))
    dsimp only
    rw [hids]

theorem vectorSearchQuery_eq (hs : cat.StoredIn store) (hs' : cat'.StoredIn store')
    {request : VectorSearchRequest} (hcol : request.vectorColumn ≠ column.name)
    (hf : ∀ f ∈ request.filter, ¬ f.Mentions column.name)
    (hp : ∀ p, request.hydration = .projection p → p.Avoids column.name) :
    s'.vectorSearchQuery P D store' request = s.vectorSearchQuery P D store request := by
  unfold Snapshot.vectorSearchQuery Snapshot.vectorSearchWith
  rcases h.querySchema_cases hq with ⟨e, he, he'⟩ | ⟨q, q', he, he', hsame⟩
  · rw [he, he']
    rfl
  · have hval : q'.validateVectorSearch request = q.validateVectorSearch request := by
      unfold DatasetSchema.validateVectorSearch
      rw [hsame request.vectorColumn hcol, hsame.validateFilter? hf]
      cases hhyd : request.hydration with
      | notRequested => rfl
      | projection p => simp only [hsame.validateProjection (hp p hhyd)]
    rw [he, he', ok_bind, ok_bind, hval]
    cases hproj : q.validateVectorSearch request with
    | error e => rfl
    | ok projection =>
      have hreq := validateVectorSearch_eq_ok hproj
      have hnot : ∀ names ∈ projection, column.name ∉ names := by
        intro names hnames
        obtain ⟨p, hhyd, hp'⟩ := hreq.hydration names hnames
        exact not_mem_of_validateProjection (hp p hhyd) hp'
      have hmatches := h.vectorMatches_eq (D := D) hs hs' hf he he' hreq.filter
        (by rw [hsame.validateFilter? hf, hreq.filter]) zoneMapPermits
      have hhits : ∀ found, s'.vectorHits P store' request projection found =
          s.vectorHits P store request projection found := by
        intro found
        unfold Snapshot.vectorHits
        simp only [h.hydrate_eq hq hs hs' hnot]
      dsimp only
      rw [hmatches]
      simp only [hhits]

end

end

end Widens

end StrataDB.Txn
