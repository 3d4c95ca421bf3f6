import StrataDB.Txn.Committing

/-! What a migration writes: every row file with one more null column before the
hidden ones, and every segment as it was, all under names of the new version. -/

namespace StrataDB.Txn

open Lib Arrow Index Storage

/-! ### One more column -/

theorem insertBeforeHidden_append {α : Type*} (xs : List α) (x a b : α) :
    insertBeforeHidden (xs ++ [a, b]) x = xs ++ [x, a, b] := by
  simp [insertBeforeHidden, hiddenColumns]

/-- The schema with the new column. -/
def withColumn (schema : Schema) (column : Field) : Schema :=
  ⟨schema.fields ++ [column], schema.metadata⟩

theorem fullFields_withColumn (schema : Schema) (column : Field) :
    fullFields (withColumn schema column) = insertBeforeHidden (fullFields schema) column := by
  rw [fullFields, fullFields, insertBeforeHidden_append]
  simp [withColumn]

variable {stored : List Field} {column : Field} {P : Platform} {version : ℕ}
  {inputs : ℕ → FileInput} {faults : ℕ → Fault} {d d' : Dataset}

theorem StoresFields.split {schema : Schema} (h : StoresFields schema stored) :
    stored = stored.take schema.fields.length ++ [rowIdField, timestampField] := by
  conv_lhs => rw [← List.take_append_drop schema.fields.length stored, h.drop_eq]

theorem StoresFields.withColumn {schema : Schema} (h : StoresFields schema stored)
    (hcolumn : column.name ∉ hiddenColumns) :
    StoresFields (withColumn schema column) (insertBeforeHidden stored column) := by
  have hprefix := List.forall₂_take schema.fields.length h
  rw [fullFields, List.take_left] at hprefix
  rw [h.split, insertBeforeHidden_append, StoresFields, fullFields_withColumn, fullFields,
    insertBeforeHidden_append]
  refine List.rel_append hprefix (.cons ⟨?_, fun hmem => absurd hmem hcolumn⟩
    (.cons ⟨by decide, fun _ => rfl⟩ (.cons ⟨by decide, fun _ => rfl⟩ .nil)))
  exact storedFieldMatches_iff.mpr ⟨rfl, rfl, rfl, storedTypeMatches_iff.mpr (.inl rfl)⟩

/-- A stored row with the new null cell. -/
abbrev migratedRow (r : Row) : Row := insertBeforeHidden r .null

section

variable {schema : Schema} {r : Row}

theorem migratedRow_eq (h : fitsFields (fullFields schema) r = true) :
    migratedRow r = r.take schema.fields.length ++
      [.null, .uint64 (storedRowId r), .int64 (storedTimestamp r)] := by
  conv_lhs => rw [row_eq h]
  exact insertBeforeHidden_append _ _ _ _

theorem storedRowId_migratedRow (h : fitsFields (fullFields schema) r = true) :
    storedRowId (migratedRow r) = storedRowId r := by
  rw [migratedRow_eq h, show ∀ (xs : Row) (a b c : Cell), xs ++ [a, b, c] = xs ++ [a] ++ [b, c] by
    simp, storedRowId_append]

variable {k : ℕ}

theorem cell_migratedRow (h : fitsFields (fullFields schema) r = true)
    (hk : k < schema.fields.length) : Row.cell (migratedRow r) k = Row.cell r k := by
  have hlen := length_of_fits h
  rw [migratedRow_eq h, Row.cell_append_left (by rw [List.length_take]; omega)]
  simp [Row.cell, List.getD_eq_getElem?_getD, hk]

theorem cell_migratedRow_new (h : fitsFields (fullFields schema) r = true) :
    Row.cell (migratedRow r) schema.fields.length = .null := by
  have hlen : (r.take schema.fields.length).length = schema.fields.length := by
    rw [List.length_take, length_of_fits h]
    omega
  rw [migratedRow_eq h]
  simp [Row.cell, List.getD_eq_getElem?_getD, hlen]

theorem cell_migratedRow_hidden (h : fitsFields (fullFields schema) r = true)
    (hk : schema.fields.length < k) : Row.cell (migratedRow r) k = Row.cell r (k - 1) := by
  have hlen : (r.take schema.fields.length).length = schema.fields.length := by
    rw [List.length_take, length_of_fits h]
    omega
  obtain ⟨i, rfl⟩ : ∃ i, k = schema.fields.length + 1 + i :=
    ⟨k - (schema.fields.length + 1), by omega⟩
  conv_rhs => rw [row_eq h]
  rw [migratedRow_eq h, Row.cell, Row.cell, List.getD_eq_getElem?_getD,
    List.getD_eq_getElem?_getD, List.getElem?_append_right (by omega),
    List.getElem?_append_right (by omega), hlen,
    show schema.fields.length + 1 + i - schema.fields.length = i + 1 by omega,
    show schema.fields.length + 1 + i - 1 - schema.fields.length = i by omega]
  rfl

/-- The new cell is no vector, and the old vector column is still the first one. -/
theorem vectorOf_migratedRow (h : fitsFields (fullFields schema) r = true) (column : Field) :
    vectorOf (withColumn schema column) (migratedRow r) = vectorOf schema r := by
  have hindex : (withColumn schema column).indexOf vectorColumn =
      (schema.indexOf vectorColumn).or
        (if column.name = vectorColumn then some schema.fields.length else none) := by
    rw [Schema.indexOf, withColumn, List.findIdx?_append, Schema.indexOf]
    congr 1
    by_cases hc : column.name = vectorColumn <;> simp [hc]
  unfold vectorOf
  rw [hindex, storedRowId_migratedRow h]
  cases hk : schema.indexOf vectorColumn with
  | some k =>
    rw [Option.some_or, Option.bind_some, Option.bind_some,
      cell_migratedRow h (List.findIdx?_eq_some_iff_getElem.mp hk).1]
  | none =>
    rw [Option.none_or]
    split
    · rw [Option.bind_some, cell_migratedRow_new h]
      rfl
    · rfl

end

/-- The statistics of the old columns still hold, and there are none of the new
one's values, all null. -/
theorem StatsCover.migrated {schema : Schema} {stats : Stats} {rows : List Row}
    (hfits : ∀ r ∈ rows, fitsFields (fullFields schema) r = true)
    (h : StatsCover schema stats rows) (column : Field) :
    StatsCover (Txn.withColumn schema column) stats (rows.map migratedRow) := by
  intro name entry hlookup hfin k f hk hname _ hmem x hx
  obtain ⟨r, hr, rfl⟩ := List.mem_map.mp hmem
  have hfields : fullFields (Txn.withColumn schema column) =
      schema.fields ++ column :: [rowIdField, timestampField] := by
    simp [fullFields, Txn.withColumn]
  rw [hfields] at hk
  rcases lt_trichotomy k schema.fields.length with hlt | rfl | hgt
  · rw [cell_migratedRow (hfits r hr) hlt] at hx
    rw [List.getElem?_append_left hlt] at hk
    exact h name entry hlookup hfin k f (fullFields_getElem_logical hk) hname r hr x hx
  · rw [cell_migratedRow_new (hfits r hr)] at hx
    cases hx
  · rw [cell_migratedRow_hidden (hfits r hr) hgt] at hx
    refine h name entry hlookup hfin (k - 1) f ?_ hname r hr x hx
    rw [List.getElem?_append_right hgt.le, List.getElem?_cons,
      if_neg (by omega)] at hk
    rw [fullFields, List.getElem?_append_right (by omega)]
    rwa [show k - 1 - schema.fields.length = k - schema.fields.length - 1 by omega]

theorem appendMigratedNullableColumn_eq_ok {batch rewritten : RecordBatch} :
    appendMigratedNullableColumn batch column = .ok rewritten ↔
      hiddenColumns.length ≤ batch.schema.fields.length ∧
        rewritten.schema =
          ⟨insertBeforeHidden batch.schema.fields column, batch.schema.metadata⟩ ∧
        rewritten.rows = batch.rows.map migratedRow := by
  simp only [appendMigratedNullableColumn, bind_eq_ok, ensure_eq_ok, lift_eq_ok, exists_const,
    RecordBatch.tryNew_eq_ok]
  rw [and_iff_right (show insertBeforeHidden batch.schema.fields column ≠ [] by
    simp [insertBeforeHidden])]

theorem vectorsFinite_migrated {schema : Schema} {rows : List Row}
    (hfits : ∀ r ∈ rows, fitsFields (fullFields schema) r = true) (h : VectorsFinite schema rows) :
    VectorsFinite (withColumn schema column) (rows.map migratedRow) := by
  intro k hk _ hmem xs hxs
  obtain ⟨r, hr, rfl⟩ := List.mem_map.mp hmem
  obtain ⟨hlt, hname, hfirst⟩ := List.findIdx?_eq_some_iff_getElem.mp hk
  have hlen : (withColumn schema column).fields.length = schema.fields.length + 1 := by
    simp [withColumn]
  by_cases hold : k < schema.fields.length
  · refine h k ?_ r hr xs ?_
    · refine List.findIdx?_eq_some_iff_getElem.mpr ⟨hold, ?_, fun j hj => ?_⟩
      · simpa [withColumn, List.getElem_append_left hold] using hname
      · have := hfirst j hj
        rw [hlen] at hlt
        simpa [withColumn, List.getElem_append_left (show j < schema.fields.length by omega)]
          using this
    · rwa [cell_migratedRow (hfits r hr) hold] at hxs
  · obtain rfl : k = schema.fields.length := by omega
    rw [cell_migratedRow_new (hfits r hr)] at hxs
    cases hxs

/-! ### The migrated objects -/

/-- A row file next to what the migration made of it. -/
structure FileMigrated (P : Platform) (column : Field) (version : ℕ)
    (p : (DataFileEntry × RecordBatch) × ℕ) (f : DataFileEntry × RecordBatch) : Prop where
  schema : f.2.schema =
    ⟨insertBeforeHidden p.1.2.schema.fields column, p.1.2.schema.metadata⟩
  rows : f.2.rows = p.1.2.rows.map migratedRow
  entry : f.1 = {
    name := .migratedFile version p.2
    byteLen := P.kernels.ipcByteLen f.2
    crc32c := P.kernels.ipcCrc32c f.2
    rowCount := p.1.1.rowCount
    rowIdRange := p.1.1.rowIdRange
    stats := f.1.stats }
  stats : ∃ slots, f.1.stats = computeStats slots f.2

/-- A segment next to its copy. -/
def SegmentMigrated (version : ℕ) (p : (SegmentEntry × Segment) × ℕ)
    (g : SegmentEntry × Segment) : Prop :=
  g = ({ p.1.1 with name := .migratedSegment version p.2 }, p.1.2)

section

variable {P : Platform} {schema : Schema} {column : Field} {version : ℕ}
  {p : (DataFileEntry × RecordBatch) × ℕ} {f : DataFileEntry × RecordBatch}

theorem FileMigrated.rowIds_eq (h : FileMigrated P column version p f)
    (hv : FileValid P schema p.1) : f.2.rows.map storedRowId = p.1.2.rows.map storedRowId := by
  rw [h.rows, List.map_map]
  exact List.map_congr_left fun r hr => storedRowId_migratedRow (hv.fits hr)

theorem FileMigrated.valid (h : FileMigrated P column version p f) (hv : FileValid P schema p.1)
    (hcolumn : column.name ∉ hiddenColumns) : FileValid P (withColumn schema column) f := by
  obtain ⟨first, hrange, hids⟩ := hv.rowIds
  refine ⟨by rw [h.entry], by rw [h.entry], ?_, ?_, first, ?_, ?_⟩
  · rw [h.schema]
    exact hv.fields.withColumn hcolumn
  · rw [h.rows, List.length_map, hv.rowCount, h.entry]
  · rw [h.entry]
    exact hrange
  · rw [h.rowIds_eq hv, hids, h.entry]

theorem FileMigrated.fileStats (h : FileMigrated P column version p f)
    (hv : FileValid P schema p.1) (hw : WellNamed (withColumn schema column)) :
    FileStats (withColumn schema column) f.1.stats f.2.rows := by
  have hcolumn : column.name ∉ hiddenColumns := hw.not_hidden column (by simp [withColumn])
  have hfields := (h.valid hv hcolumn).fields
  obtain ⟨slots, hstats⟩ := h.stats
  rw [hstats]
  refine fileStats_of_columns hw (fun k g hk => ?_) fun _ _ => rfl
  have hlt : k < (fullFields (withColumn schema column)).length := by
    rw [← List.Forall₂.length_eq hfields]
    exact (List.getElem?_eq_some_iff.mp hk).1
  obtain ⟨s, hs, hmatch, _⟩ := hfields.getElem (List.getElem?_eq_getElem hlt)
  rw [hk] at hs
  cases hs
  have hmatch := storedFieldMatches_iff.mp hmatch
  exact ⟨_, List.getElem?_eq_getElem hlt, hmatch.1, hmatch.2.2.2⟩

end

/-- The names a migration to this version writes under. -/
def ofMigration (version : ℕ) (n : ObjectName) : Prop := n.migration? = some version

theorem within_migrateFile (P : Platform) (column : Field) (version : ℕ) (inputs : ℕ → FileInput)
    (p : DataFileEntry × ℕ) :
    Effect.Within (WritesOnly (· = .migratedFile version p.2))
      (migrateFile P column version inputs p) :=
  within_bind (within_reads _) fun _ => within_bind (within_lift _) fun _ =>
    within_bind (within_lift _) fun _ => within_bind (within_putObject _ _ _) fun _ =>
      within_pure _

theorem within_migrateSegment (version : ℕ) (faults : ℕ → Fault) (p : SegmentEntry × ℕ) :
    Effect.Within (WritesOnly (· = .migratedSegment version p.2))
      (migrateSegment version faults p) :=
  within_bind (within_reads _) fun _ => within_bind (within_lift _) fun _ =>
    within_bind (within_putObject _ _ _) fun _ => within_bind (within_lift _) fun _ =>
      within_pure _

theorem migrateFile_eq_ok {p : (DataFileEntry × RecordBatch) × ℕ} {entry : DataFileEntry}
    (hstored : d.store.get (.data p.1.1.name) = some (.rows p.1.2))
    (h : migrateFile P column version inputs (p.1.1, p.2) d = (.ok entry, d')) :
    ∃ rewritten, FileMigrated P column version p (entry, rewritten) ∧
      d'.store.get (.data (.migratedFile version p.2)) = some (.rows rewritten) := by
  simp only [migrateFile, Effect.reads_bind, Effect.bind_eq_ok, Effect.lift_apply,
    Effect.pure_apply, Prod.mk.injEq, Except.ok.injEq, id_eq] at h
  obtain ⟨batch, _, ⟨hread, rfl⟩, rewritten, _, ⟨happend, rfl⟩, _, d₁, hput, rfl, rfl⟩ := h
  rw [readBatch, hstored] at hread
  obtain rfl := Except.ok.inj hread
  obtain ⟨_, hschema, hrows⟩ := appendMigratedNullableColumn_eq_ok.mp happend
  exact ⟨rewritten, ⟨hschema, hrows, rfl, _, rfl⟩, putObject_eq_ok hput⟩

theorem migrateSegment_eq_ok {p : (SegmentEntry × Segment) × ℕ} {entry : SegmentEntry}
    (hstored : d.store.get (.data p.1.1.name) = some (.segment p.1.2))
    (h : migrateSegment version faults (p.1.1, p.2) d = (.ok entry, d')) :
    SegmentMigrated version p (entry, p.1.2) ∧
      d'.store.get (.data (.migratedSegment version p.2)) = some (.segment p.1.2) := by
  simp only [migrateSegment, Effect.reads_bind, Effect.bind_eq_ok, Effect.lift_apply,
    Effect.pure_apply, Prod.mk.injEq, Except.ok.injEq, id_eq] at h
  obtain ⟨segment, _, ⟨hread, rfl⟩, _, d₁, hput, _, _, ⟨_, rfl⟩, rfl, rfl⟩ := h
  rw [readSegment, hstored] at hread
  obtain rfl := Except.ok.inj hread
  exact ⟨rfl, putObject_eq_ok hput⟩

/-- All row files, rewritten. The sources must stay in place. -/
theorem migrateFiles_spec {files : List (DataFileEntry × RecordBatch)}
    (hstored : ∀ f ∈ files, d.store.get (.data f.1.name) = some (.rows f.2))
    (hnew : ∀ f ∈ files, ¬ ofMigration version f.1.name) {entries : List DataFileEntry}
    (h : Effect.forEach (migrateFile P column version inputs) (files.map Prod.fst).zipIdx d =
      (.ok entries, d')) :
    ∃ files', files'.map Prod.fst = entries ∧
      List.Forall₂ (fun p f => FileMigrated P column version p f ∧
        d'.store.get (.data f.1.name) = some (.rows f.2)) files.zipIdx files' := by
  rw [zipIdx_map_fst_eq, Effect.forEach_map] at h
  have hall := Effect.forEach_spec
    (I := fun d : Dataset => ∀ f ∈ files, d.store.get (.data f.1.name) = some (.rows f.2))
    (Q := fun p entry (d : Dataset) => ∃ rewritten, FileMigrated P column version p
      (entry, rewritten) ∧ d.store.get (.data (.migratedFile version p.2)) = some (.rows rewritten))
    (fun p _ d hd f hf => by
      rw [(within_migrateFile P column version inputs (p.1.1, p.2) d).data_eq
        fun heq => hnew f hf (by rw [heq]; rfl)]
      exact hd f hf)
    (fun p hp d entry d' hd hx => migrateFile_eq_ok (hd p.1 (List.fst_mem_of_mem_zipIdx hp)) hx)
    ((zipIdx_pairwise files).imp fun {p q} hne entry d ⟨rewritten, hm, hget⟩ => by
      refine ⟨rewritten, hm, ?_⟩
      rw [(within_migrateFile P column version inputs (q.1.1, q.2) d).data_eq
        fun heq => hne (ObjectName.migratedFile.inj heq).2]
      exact hget) hstored h
  obtain ⟨files', hfst, hall'⟩ := exists_zip_of_forall₂ hall
  refine ⟨files', hfst, hall'.imp fun p f hpf => ⟨hpf.1, ?_⟩⟩
  rw [hpf.1.entry]
  exact hpf.2

theorem migrateSegments_spec {segments : List (SegmentEntry × Segment)}
    (hstored : ∀ g ∈ segments, d.store.get (.data g.1.name) = some (.segment g.2))
    (hnew : ∀ g ∈ segments, ¬ ofMigration version g.1.name) {entries : List SegmentEntry}
    (h : Effect.forEach (migrateSegment version faults) (segments.map Prod.fst).zipIdx d =
      (.ok entries, d')) :
    ∃ segments', segments'.map Prod.fst = entries ∧
      List.Forall₂ (fun p g => SegmentMigrated version p g ∧
        d'.store.get (.data g.1.name) = some (.segment g.2)) segments.zipIdx segments' := by
  rw [zipIdx_map_fst_eq, Effect.forEach_map] at h
  have hall := Effect.forEach_spec
    (I := fun d : Dataset => ∀ g ∈ segments, d.store.get (.data g.1.name) = some (.segment g.2))
    (Q := fun p entry (d : Dataset) => ∃ segment, SegmentMigrated version p (entry, segment) ∧
      d.store.get (.data (.migratedSegment version p.2)) = some (.segment segment))
    (fun p _ d hd g hg => by
      rw [(within_migrateSegment version faults (p.1.1, p.2) d).data_eq
        fun heq => hnew g hg (by rw [heq]; rfl)]
      exact hd g hg)
    (fun p hp d entry d' hd hx =>
      ⟨p.1.2, migrateSegment_eq_ok (hd p.1 (List.fst_mem_of_mem_zipIdx hp)) hx⟩)
    ((zipIdx_pairwise segments).imp fun {p q} hne entry d ⟨segment, hm, hget⟩ => by
      refine ⟨segment, hm, ?_⟩
      rw [(within_migrateSegment version faults (q.1.1, q.2) d).data_eq
        fun heq => hne (ObjectName.migratedSegment.inj heq).2]
      exact hget) hstored h
  obtain ⟨segments', hfst, hall'⟩ := exists_zip_of_forall₂ hall
  refine ⟨segments', hfst, hall'.imp fun p g hpg => ⟨hpg.1, ?_⟩⟩
  have hname : g.1.name = .migratedSegment version p.2 := congrArg (fun g => g.1.name) hpg.1
  rw [hname]
  exact hpg.2

end StrataDB.Txn
