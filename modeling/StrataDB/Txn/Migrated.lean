import StrataDB.Txn.Migrating

/-! The version a migration publishes: it is valid under the new schema, and its
live rows are those of its source with a null cell each. -/

namespace StrataDB.Txn

open Lib Arrow Index Storage

variable (P : Platform) (migration : SchemaMigration) (clock : Option ℕ) (faults : MigrationFaults)
  {d d' : Dataset} {cat : Catalog}

theorem definite_migrationCandidate :
    DefiniteAction (migrationCandidate P migration clock faults) :=
  .bind (.reads _) fun _ => .bind (.lift (definite_storage _)) fun _ =>
    .bind (.lift (definite_validateSchema _)) fun _ =>
      .bind (.lift (.orElse fun _ _ => by simp)) fun _ =>
        .bind (.lift (definite_checkedAdd _ _ _)) fun _ =>
          .bind (.forEach (definite_migrateFile _ _ _ _) _) fun _ =>
            .bind (.forEach (definite_migrateSegment _ _) _) fun _ =>
              .bind (definite_issueTimestamp _) fun _ => .bind (.reads _) fun _ =>
                .bind (.lift (definite_validateCatalog _ _ _ _)) fun _ => .pure _

theorem advances_migrationCandidate {r : Except TxnError (Snapshot × SchemaMigrationResult)}
    (h : migrationCandidate P migration clock faults d = (r, d')) :
    Advances (ofMigration (d.current.version + 1)) d d' := by
  unfold migrationCandidate at h
  rw [Effect.reads_bind] at h
  rcases Effect.lift_bind_cases h with ⟨_, _, h⟩ | ⟨_, _, _, hd⟩
  swap
  · rw [hd]
    exact .refl _ d
  rcases Effect.lift_bind_cases h with ⟨_, _, h⟩ | ⟨_, _, _, hd⟩
  swap
  · rw [hd]
    exact .refl _ d
  rcases Effect.lift_bind_cases h with ⟨_, _, h⟩ | ⟨_, _, _, hd⟩
  swap
  · rw [hd]
    exact .refl _ d
  rcases Effect.lift_bind_cases h with ⟨version, hversion, h⟩ | ⟨_, _, _, hd⟩
  swap
  · rw [hd]
    exact .refl _ d
  obtain ⟨rfl, _⟩ := checkedAdd_eq_ok.mp hversion
  refine Effect.Within.of_eq ?_ h
  refine advances_bind (.forEach (Advances.refl _) (fun _ _ _ => Advances.trans) fun p _ d => ?_)
    fun _ => advances_bind (.forEach (Advances.refl _) (fun _ _ _ => Advances.trans)
      fun p _ d => ?_) fun _ => advances_bind (advances_issueTimestamp _ _) fun _ =>
        advances_bind (.reads (Advances.refl _) _) fun _ => advances_bind (advances_lift _) fun _ =>
          .pure (Advances.refl _) _
  · refine (within_migrateFile P _ _ faults.files p d).advances.mono ?_
    rintro _ rfl
    rfl
  · refine (within_migrateSegment _ faults.segments p d).advances.mono ?_
    rintro _ rfl
    rfl

/-- A migration that is ready to publish: `d` is the handle at its start, `d₁` the
one with the new objects. -/
structure Migrates (P : Platform) (d d₁ : Dataset) (cat : Catalog) (column : Field)
    (cat' : Catalog) : Prop where
  source : d.current.Valid P cat
  advances : Advances (ofMigration (d.current.version + 1)) d d₁
  schemaVersion : d.current.manifest.effectiveSchemaVersion = initialSchemaVersion
  nullable : column.nullable = true
  target : WellNamed (withColumn d.current.schema column)
  files : List.Forall₂ (FileMigrated P column (d.current.version + 1)) cat.files.zipIdx cat'.files
  segments : List.Forall₂ (SegmentMigrated (d.current.version + 1)) cat.segments.zipIdx
    cat'.segments
  stored : cat'.StoredIn d₁.store

/-- The snapshot it publishes. -/
def migrated (d : Dataset) (column : Field) (ts : ℤ) (cat' : Catalog) : Snapshot where
  version := d.current.version + 1
  schema := withColumn d.current.schema column
  manifest := migratedManifest d.current
    (.addNullableColumn initialSchemaVersion addNullableColumnSchemaVersion column)
    (withColumn d.current.schema column) (d.current.version + 1) ts (cat'.files.map Prod.fst)
    (cat'.segments.map Prod.fst)
  index := cat'.parts
  tombstones := d.current.tombstones

namespace Migrates

variable {P : Platform} {d d₁ : Dataset} {cat cat' : Catalog} {column : Field} {ts : ℤ}

theorem dataNames (h : Migrates P d d₁ cat column cat') :
    cat'.files.map (fun f => f.1.name) = (List.range cat.files.length).map
      (ObjectName.migratedFile (d.current.version + 1)) := by
  rw [List.range_eq_range', ← List.zipIdx_map_snd, List.map_map]
  refine map_eq_of_forall₂ (h.files.imp fun p f hf => ?_)
  rw [hf.entry]
  rfl

theorem segmentNames (h : Migrates P d d₁ cat column cat') :
    cat'.segments.map (fun g => g.1.name) = (List.range cat.segments.length).map
      (ObjectName.migratedSegment (d.current.version + 1)) := by
  rw [List.range_eq_range', ← List.zipIdx_map_snd, List.map_map]
  exact map_eq_of_forall₂ (h.segments.imp fun p g hg => congrArg (fun g => g.1.name) hg)

theorem objectNames (h : Migrates P d d₁ cat column cat') :
    (migrated d column ts cat').manifest.objectNames =
      (List.range cat.files.length).map (ObjectName.migratedFile (d.current.version + 1)) ++
        (List.range cat.segments.length).map
          (ObjectName.migratedSegment (d.current.version + 1)) := by
  rw [← h.dataNames, ← h.segmentNames, Manifest.objectNames, Manifest.dataNames,
    Manifest.segmentNames]
  simp only [migrated, migratedManifest, List.map_map]
  rfl

theorem ofMigration_of_mem (h : Migrates P d d₁ cat column cat') {n : ObjectName}
    (hn : n ∈ (migrated d column ts cat').manifest.objectNames) :
    ofMigration (d.current.version + 1) n := by
  rw [h.objectNames] at hn
  rcases List.mem_append.mp hn with hn | hn <;>
  · obtain ⟨_, _, rfl⟩ := List.mem_map.mp hn
    rfl

theorem names_nodup (h : Migrates P d d₁ cat column cat') :
    (migrated d column ts cat').manifest.objectNames.Nodup := by
  rw [h.objectNames, List.nodup_append]
  refine ⟨List.nodup_range.map fun i j hij => (ObjectName.migratedFile.inj hij).2,
    List.nodup_range.map fun i j hij => (ObjectName.migratedSegment.inj hij).2,
    fun a ha b hb => ?_⟩
  obtain ⟨i, _, rfl⟩ := List.mem_map.mp ha
  obtain ⟨j, _, rfl⟩ := List.mem_map.mp hb
  simp

theorem exists_file (h : Migrates P d d₁ cat column cat') {f : DataFileEntry × RecordBatch}
    (hf : f ∈ cat'.files) :
    ∃ p, p.1 ∈ cat.files ∧ FileMigrated P column (d.current.version + 1) p f := by
  obtain ⟨p, hp, hpf⟩ := exists_left_of_forall₂ h.files hf
  exact ⟨p, List.fst_mem_of_mem_zipIdx hp, hpf⟩

theorem exists_segment (h : Migrates P d d₁ cat column cat') {g : SegmentEntry × Segment}
    (hg : g ∈ cat'.segments) :
    ∃ p, p.1 ∈ cat.segments ∧ SegmentMigrated (d.current.version + 1) p g := by
  obtain ⟨p, hp, hpg⟩ := exists_left_of_forall₂ h.segments hg
  exact ⟨p, List.fst_mem_of_mem_zipIdx hp, hpg⟩

theorem rows_eq (h : Migrates P d d₁ cat column cat') :
    cat'.rows = cat.rows.map migratedRow := by
  rw [Catalog.rows, Catalog.rows, List.map_flatMap]
  have hzip : cat.files.flatMap (fun f => f.2.rows.map migratedRow) =
      cat.files.zipIdx.flatMap fun p => p.1.2.rows.map migratedRow := by
    conv_lhs => rw [← List.zipIdx_map_fst 0 cat.files, List.flatMap_map]
  rw [hzip]
  exact flatMap_eq_of_forall₂ (h.files.imp fun p f hf => hf.rows)

theorem rowIds_eq (h : Migrates P d d₁ cat column cat') : cat'.rowIds = cat.rowIds := by
  rw [Catalog.rowIds, h.rows_eq, List.map_map]
  exact List.map_congr_left fun r hr => storedRowId_migratedRow (Catalog.fits h.source hr)

theorem vectorIds_eq (h : Migrates P d d₁ cat column cat') : cat'.vectorIds = cat.vectorIds := by
  rw [Catalog.vectorIds, Catalog.vectorIds]
  conv_rhs => rw [← List.zipIdx_map_fst 0 cat.segments, List.flatMap_map]
  refine flatMap_eq_of_forall₂ (h.segments.imp fun p g hg => ?_)
  exact congrArg (fun g => g.2.rowIds) hg

theorem vectors_eq (h : Migrates P d d₁ cat column cat') : cat'.vectors = cat.vectors := by
  rw [Catalog.vectors, Catalog.vectors]
  conv_rhs => rw [← List.zipIdx_map_fst 0 cat.segments, List.flatMap_map]
  refine flatMap_eq_of_forall₂ (h.segments.imp fun p g hg => ?_)
  exact congrArg (fun g => List.zipWith VectorInsert.mk g.2.rowIds g.2.vectors) hg

theorem indexedRows_eq (h : Migrates P d d₁ cat column cat') (segment : Segment) :
    cat'.indexedRows segment = (cat.indexedRows segment).map migratedRow := by
  rw [Catalog.indexedRows, Catalog.indexedRows, h.rows_eq, List.filter_map]
  congr 1
  refine List.filter_congr fun r hr => ?_
  rw [Function.comp_apply, storedRowId_migratedRow (Catalog.fits h.source hr)]

theorem valid (h : Migrates P d d₁ cat column cat')
    (hdec : decodeManifest P.format (d.current.version + 1)
      (migrated d column ts cat').manifest = .ok (migrated d column ts cat').manifest) :
    (migrated d column ts cat').Valid P cat' := by
  have hcolumn : column.name ∉ hiddenColumns :=
    h.target.not_hidden column (by simp [withColumn])
  constructor
  case version_eq => rfl
  case schema_eq => rfl
  case wellNamed => exact h.target
  case decodes => exact hdec
  case files_eq => rfl
  case segments_eq => rfl
  case names_nodup => exact h.names_nodup
  case fileValid =>
    intro f hf
    obtain ⟨p, hp, hpf⟩ := h.exists_file hf
    exact hpf.valid (h.source.fileValid p.1 hp) hcolumn
  case rowIds_nodup =>
    rw [h.rowIds_eq]
    exact h.source.rowIds_nodup
  case tombstones_eq => exact h.source.tombstones_eq
  case tombstones_nodup => exact h.source.tombstones_nodup
  case tombstones_owned =>
    rw [h.rowIds_eq]
    exact h.source.tombstones_owned
  case segmentValid =>
    intro g hg
    obtain ⟨p, hp, rfl⟩ := h.exists_segment hg
    have hv := h.source.segmentValid p.1 hp
    exact ⟨hv.byteLen, hv.formatVersion, hv.vectorCount, hv.dimension, hv.dimension_ne_zero,
      hv.rowIdRange, hv.rowIds_ne_nil, hv.vectors_length, hv.vector_length, hv.encodable⟩
  case dimension_eq =>
    intro g hg g' hg'
    obtain ⟨p, hp, rfl⟩ := h.exists_segment hg
    obtain ⟨p', hp', rfl⟩ := h.exists_segment hg'
    exact h.source.dimension_eq p.1 hp p'.1 hp'
  case vectorIds_nodup =>
    rw [h.vectorIds_eq]
    exact h.source.vectorIds_nodup
  case vectorIds_owned =>
    rw [h.vectorIds_eq, h.rowIds_eq]
    exact h.source.vectorIds_owned
  case index_eq => rfl
  case fileStats =>
    intro f hf
    obtain ⟨p, hp, hpf⟩ := h.exists_file hf
    exact hpf.fileStats (h.source.fileValid p.1 hp) h.target
  case zoneCover =>
    intro g hg
    obtain ⟨p, hp, rfl⟩ := h.exists_segment hg
    rw [h.indexedRows_eq]
    exact (h.source.zoneCover p.1 hp).migrated
      (fun r hr => Catalog.fits h.source (List.mem_of_mem_filter hr)) column
  case vectors_eq =>
    rw [h.vectors_eq, h.source.vectors_eq, h.rows_eq, List.filterMap_map]
    exact List.filterMap_congr fun r hr =>
      (vectorOf_migratedRow (Catalog.fits h.source hr) column).symm
  case vectorsFinite =>
    rw [h.rows_eq]
    exact vectorsFinite_migrated (fun r hr => Catalog.fits h.source hr) h.source.vectorsFinite
  case rowIds_lt =>
    rw [h.rowIds_eq]
    exact h.source.rowIds_lt
  case names_below =>
    intro n hn
    have hof := h.ofMigration_of_mem hn
    cases n <;> simp only [ofMigration, ObjectName.migration?, Option.some.injEq,
      reduceCtorEq] at hof <;> exact hof.le

theorem liveRows (h : Migrates P d d₁ cat column cat') :
    cat'.liveRows (migrated d column ts cat').tombstones =
      (cat.liveRows d.current.tombstones).map migratedRow := by
  rw [Catalog.liveRows, Catalog.liveRows, h.rows_eq, List.filter_map]
  congr 1
  refine List.filter_congr fun r hr => ?_
  simp only [Function.comp_apply, storedRowId_migratedRow (Catalog.fits h.source hr)]
  rfl

end Migrates

/-- Names of a valid version are not those of a migration to a later one. -/
theorem Snapshot.Valid.not_ofMigration {P : Platform} {s : Snapshot} (h : s.Valid P cat)
    {n : ObjectName} (hn : n ∈ s.manifest.objectNames) : ¬ ofMigration (s.version + 1) n := by
  have hbelow := h.names_below n hn
  intro hof
  cases n <;> simp only [ofMigration, ObjectName.migration?, Option.some.injEq,
    reduceCtorEq] at hof <;> simp only [NameBelow] at hbelow <;> omega

/-- A candidate holds the objects of the source with the new column, and has
passed recovery's checks. -/
theorem migrationCandidate_spec {P : Platform} {migration : SchemaMigration} {clock : Option ℕ}
    {faults : MigrationFaults} {d₁ : Dataset} (hv : d.current.Valid P cat)
    (hs : cat.StoredIn d.store) {snapshot : Snapshot} {report : SchemaMigrationResult}
    (h : migrationCandidate P migration clock faults d = (.ok (snapshot, report), d₁)) :
    ∃ column ts cat' index, Migrates P d d₁ cat column cat' ∧
      migration =
        .addNullableColumn initialSchemaVersion addNullableColumnSchemaVersion column ∧
      snapshot = { migrated d column ts cat' with index } ∧
      validateCatalog P d₁.store (migrated d column ts cat').manifest
        (withColumn d.current.schema column) = .ok index := by
  have hadv := advances_migrationCandidate P migration clock faults h
  unfold migrationCandidate at h
  rw [Effect.reads_bind] at h
  simp only [Effect.bind_eq_ok, Effect.lift_apply, Effect.reads_apply, Effect.pure_apply,
    Prod.mk.injEq, Except.ok.injEq, id_eq, lift_eq_ok, orElse_eq_ok, checkedAdd_eq_ok,
    SchemaMigration.targetSchema_eq_ok, validateSchema_eq_ok] at h
  obtain ⟨target, _, ⟨⟨column, rfl, hversion, hnull, hnew, rfl⟩, rfl⟩, _, _, ⟨htarget, rfl⟩,
    column', _, ⟨hcolumn, rfl⟩, version, _, ⟨⟨rfl, hlt⟩, rfl⟩, entries, d₂, hfiles, sentries, d₃,
    hsegments, ts, d₄, hts, _, _, ⟨rfl, rfl⟩, index, _, ⟨hindex, rfl⟩, ⟨rfl, rfl⟩, rfl⟩ := h
  obtain rfl := Option.some.inj hcolumn
  obtain rfl := issueTimestamp_eq_ok hts
  rw [hv.files_eq] at hfiles
  rw [hv.segments_eq] at hsegments
  obtain ⟨files', hfst, hfiles'⟩ := migrateFiles_spec hs.files
    (fun f hf => hv.not_ofMigration (hv.file_name_mem hf)) hfiles
  have hkeep₂ : ∀ g ∈ cat.segments, d₂.store.get (.data g.1.name) = some (.segment g.2) := by
    intro g hg
    have hwithin : Effect.Within (WritesOnly (ofMigration (d.current.version + 1)))
        (Effect.forEach (migrateFile P column (d.current.version + 1) faults.files)
          (cat.files.map Prod.fst).zipIdx) :=
      .forEach (WritesOnly.refl _) (fun _ _ _ => WritesOnly.trans) fun p _ d =>
        (within_migrateFile P column _ faults.files p d).mono fun n hn => by rw [hn]; rfl
    rw [(hwithin.of_eq hfiles).data_eq (hv.not_ofMigration (hv.segment_name_mem hg))]
    exact hs.segments g hg
  obtain ⟨segments', hsfst, hsegments'⟩ := migrateSegments_spec hkeep₂
    (fun g hg => hv.not_ofMigration (hv.segment_name_mem hg)) hsegments
  have hkeep₃ : ∀ p ∈ cat.files.zipIdx, d₃.store.get
      (.data (.migratedFile (d.current.version + 1) p.2)) =
        d₂.store.get (.data (.migratedFile (d.current.version + 1) p.2)) := by
    intro p _
    have hwithin : Effect.Within
        (WritesOnly fun n => ∃ k, n = .migratedSegment (d.current.version + 1) k)
        (Effect.forEach (migrateSegment (d.current.version + 1) faults.segments)
          (cat.segments.map Prod.fst).zipIdx) :=
      .forEach (WritesOnly.refl _) (fun _ _ _ => WritesOnly.trans) fun p _ d =>
        (within_migrateSegment _ faults.segments p d).mono fun n hn => ⟨p.2, hn⟩
    exact (hwithin.of_eq hsegments).data_eq (by simp)
  refine ⟨column, ts, ⟨files', segments'⟩, index, ⟨hv, hadv, hversion, hnull, htarget,
    hfiles'.imp fun _ _ hp => hp.1, hsegments'.imp fun _ _ hp => hp.1, ?_, ?_⟩, rfl, ?_, ?_⟩
  · intro f hf
    obtain ⟨p, hp, hpf⟩ := exists_left_of_forall₂ hfiles' hf
    have hname : f.1.name = .migratedFile (d.current.version + 1) p.2 := by rw [hpf.1.entry]
    show d₃.store.get _ = _
    rw [hname, hkeep₃ p hp, ← hname]
    exact hpf.2
  · intro g hg
    obtain ⟨p, hp, hpg⟩ := exists_left_of_forall₂ hsegments' hg
    exact hpg.2
  · simp only [migrated, hfst, hsfst]
    rfl
  · simp only [migrated, hfst, hsfst]
    exact hindex

/-- A migration either publishes the rewritten version, whose files carry the
schema's metadata, or only wrote under names of its own. -/
theorem migrateSchema_cases {P : Platform} {migration : SchemaMigration} {clock : Option ℕ}
    {faults : MigrationFaults} {r : Except TxnError SchemaMigrationResult}
    (hv : d.current.Valid P cat) (hs : cat.StoredIn d.store)
    (hfree : d.store.get (.manifest (d.current.version + 1)) = none)
    (h : migrateSchema P migration clock faults d = (r, d')) :
    (∃ d₁ column ts cat', Migrates P d d₁ cat column cat' ∧
      VisibleResult (d.current.version + 1) r ∧
      migration =
        .addNullableColumn initialSchemaVersion addNullableColumnSchemaVersion column ∧
      d' = d₁.published (migrated d column ts cat') [] ∧
      (migrated d column ts cat').Valid P cat' ∧
      cat'.MetadataKept (withColumn d.current.schema column)) ∨
    ((∃ e, r = .error e ∧ e.Definite) ∧
      Advances (ofMigration (d.current.version + 1)) d d') := by
  unfold migrateSchema at h
  rcases Effect.bind_cases h with ⟨⟨snapshot, report⟩, d₁, hcand, hpub⟩ | ⟨e, hcand, hr⟩
  · obtain ⟨column, ts, cat', index, hm, hmig, rfl, hindex⟩ := migrationCandidate_spec hv hs hcand
    have hfree₁ : d₁.store.get (.manifest (d.current.version + 1)) = none := by
      rw [hm.advances.manifest_eq, hfree]
    rcases publish_cases hfree₁ rfl hpub with ⟨hvisible, hd, hdec⟩ | ⟨⟨e, hr⟩, hd⟩
    · have hvalid := hm.valid hdec
      obtain ⟨hmeta, rfl⟩ := (hvalid.validateCatalog hm.stored).mp hindex
      exact .inl ⟨d₁, column, ts, cat', hm, hvisible, hmig, hd, hvalid, hmeta⟩
    · rw [hd]
      exact .inr ⟨⟨_, hr, fun _ _ => by simp⟩, hm.advances⟩
  · exact .inr ⟨⟨e, hr, (definite_migrationCandidate P migration clock faults).of_eq hcand⟩,
      advances_migrationCandidate P migration clock faults hcand⟩

end StrataDB.Txn
