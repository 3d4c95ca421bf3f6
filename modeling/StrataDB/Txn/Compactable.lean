import StrataDB.Index.Construction
import StrataDB.Txn.Maintenance

/-! When a compaction succeeds. With no storage fault, sizes within the format's
and no other live snapshot, what remains is a condition on the live rows: their
vectors must come in the order of their row ids, the bounds recorded for each run of
consecutive ids must survive their encoding, and the schema must have no metadata. -/

namespace StrataDB.Txn

open Lib Arrow Index Storage

variable {P : Platform}

/-! ### The segment -/

/-- The segment of the vectors is within the sizes of its format. -/
structure SegmentFits (P : Platform) (inserts : List VectorInsert) : Prop where
  rowIds : inserts.length * 8 < 2 ^ 32
  dimension : ((inserts.map VectorInsert.vector).headD []).length < 2 ^ 32
  sections : ∀ graph, P.builder.build (inserts.map VectorInsert.vector) = .ok graph →
    (Segment.mk (inserts.map VectorInsert.rowId)
      ((inserts.map VectorInsert.vector).headD []).length (inserts.map VectorInsert.vector)
      graph).sectionsFit = true

/-- Vectors of one dimension are serialized exactly in the order of their ids. -/
theorem buildAndWriteSegment_iff {inserts : List VectorInsert} (hfits : SegmentFits P inserts)
    {n : ℕ} (hn : n ≠ 0) (hdim : ∀ v ∈ inserts, v.vector.length = n) (attempt : ℕ)
    (zoneMap : Stats) (d : Dataset) :
    (∃ segment d', buildAndWriteSegment P attempt inserts zoneMap .none d = (.ok segment, d')) ↔
      (inserts.map VectorInsert.rowId).Pairwise (· < ·) := by
  by_cases hnil : inserts = []
  · subst hnil
    exact ⟨fun _ => .nil, fun _ => ⟨none, d, rfl⟩⟩
  · constructor
    · rintro ⟨segment, d', hrun⟩
      obtain ⟨hnone, hwritten⟩ := buildAndWriteSegment_spec hrun
      cases segment with
      | none => exact absurd (hnone.mp rfl) hnil
      | some p =>
        have hp := (hwritten p rfl).1
        rw [← hp.rowIds]
        exact hp.ascending
    · intro hasc
      have hne : inserts.map VectorInsert.vector ≠ [] := by simpa using hnil
      obtain ⟨graph, hgraph, henc⟩ := P.builder.exists_build hne
        (by
          have hrows := hfits.rowIds
          rw [List.length_map, Hnsw.addressableCapacity, Hnsw.maxRowIdCapacity, Hnsw.chunkSize]
          omega)
        (List.forall_mem_map.mpr hdim)
      have hhead : ((inserts.map VectorInsert.vector).headD []).length = n := by
        cases inserts with
        | nil => exact absurd rfl hnil
        | cons v inserts => exact hdim v List.mem_cons_self
      have hseg : encodeSegment (inserts.map VectorInsert.rowId)
          (inserts.map VectorInsert.vector) graph = .ok ⟨inserts.map VectorInsert.rowId,
            ((inserts.map VectorInsert.vector).headD []).length, inserts.map VectorInsert.vector,
            graph⟩ := by
        refine encodeSegment_eq_ok.mpr ⟨rfl, by simpa using hnil, hasc, by rwa [hhead], ?_,
          by simpa using henc, ?_, hfits.dimension, hfits.sections graph hgraph⟩
        swap
        · have hrows := hfits.rowIds
          rw [List.length_map]
          omega
        rw [hhead, List.forall_mem_map]
        exact hdim
      unfold buildAndWriteSegment
      dsimp only
      rw [if_neg hnil, lift_eq_ok.mpr hgraph, Effect.bind_of_ok (Effect.lift_apply _ _),
        lift_eq_ok.mpr hseg, Effect.bind_of_ok (Effect.lift_apply _ _)]
      exact ⟨_, _, rfl⟩

variable {cat : Catalog}

theorem Snapshot.Valid.vector_length {s : Snapshot} (h : s.Valid P cat) :
    ∃ n ≠ 0, ∀ v ∈ cat.rows.filterMap (vectorOf s.schema), v.vector.length = n := by
  rw [← h.vectors_eq]
  cases hsegs : cat.segments with
  | nil => exact ⟨1, one_ne_zero, by simp [Catalog.vectors, hsegs]⟩
  | cons g segs =>
    have hg : g ∈ cat.segments := by simp [hsegs]
    refine ⟨g.2.dimension, (h.segmentValid g hg).dimension_ne_zero, fun v hv => ?_⟩
    obtain ⟨g', hg', hv⟩ := List.mem_flatMap.mp hv
    have hvalid := h.segmentValid g' hg'
    obtain ⟨i, hi, rfl⟩ := List.mem_iff_getElem.mp hv
    rw [List.getElem_zipWith, hvalid.vector_length _ (List.getElem_mem _), hvalid.dimension,
      (h.segmentValid g hg).dimension, h.dimension_eq g hg g' hg']

/-! ### The rows -/

/-- The stored vector column has the type it has in the logical schema: a list is
never packed. -/
theorem vectorIndex_encoded (hK : ArrowPacking P.kernels) {logical encoded : RecordBatch}
    (hw : WellNamed logical.schema)
    (henc : encodeUserColumns P.kernels logical = .ok encoded) :
    vectorIndex ⟨encoded.schema.fields ++ [rowIdField, timestampField], []⟩ =
      vectorIndex logical.schema := by
  have hstores := storesFields_append_hidden hw (encodeUserColumns_spec henc).2.2
  have hindex : Schema.indexOf ⟨encoded.schema.fields ++ [rowIdField, timestampField], []⟩
      vectorColumn = logical.schema.indexOf vectorColumn := hstores.indexOf_vector
  unfold vectorIndex
  rw [hindex]
  cases hk : logical.schema.indexOf vectorColumn with
  | none => rfl
  | some k =>
    obtain ⟨hlt, _⟩ := List.findIdx?_eq_some_iff_getElem.mp hk
    have hf := List.getElem?_eq_getElem hlt
    set f := logical.schema.fields[k]
    unfold encodeUserColumns at henc
    rw [if_neg (by rintro hnil; simp [hnil] at hlt), lift_eq_ok] at henc
    obtain ⟨c, hc, hck⟩ := encodeBatch_getElem henc hf
    have hstored : Schema.typeAt ⟨encoded.schema.fields ++ [rowIdField, timestampField], []⟩ k =
        c.1.dataType := by
      have hlt' := (List.getElem?_eq_some_iff.mp hck).1
      simp [Schema.typeAt, List.getElem?_append_left hlt', hck]
    have hlogical : logical.schema.typeAt k = f.dataType := by simp [Schema.typeAt, hf]
    simp only [hstored, hlogical]
    by_cases hun : unpackable f.dataType = true
    · rw [encodeColumn_unpackable hK hc hun]
    · have hmatch := (storedFieldMatches_iff.mp (encodeColumn_spec
        (show encodeColumn _ _ _ = .ok (c.1, c.2) from hc)).2).2.2.2
      rcases storedTypeMatches_iff.mp hmatch with heq | ⟨key, heq⟩
      · rw [heq]
      · rw [heq]
        cases hft : f.dataType <;> simp_all [unpackable]

theorem writeRuns_ok (P : Platform) (attempt : ℕ) (logical stored : RecordBatch)
    (rowIds : List ℕ) (slots : ℕ → Slots) (runs : List (ℕ × ℕ)) (d : Dataset) :
    ∃ entries d', Effect.forEach (writeRun P attempt logical stored rowIds
      (CompactionFaults.free slots).files) runs.zipIdx d = (.ok entries, d') := by
  have hrun : ∀ p ∈ runs.zipIdx, ∀ d, True → ∃ entry d', writeRun P attempt logical stored rowIds
      (CompactionFaults.free slots).files p d = (.ok entry, d') ∧ True :=
    fun p _ d _ => ⟨_, _, rfl, trivial⟩
  obtain ⟨entries, d', hrun, -⟩ := Effect.forEach_ok hrun (s := d) trivial
  exact ⟨entries, d', hrun⟩

/-- Without a fault, rows that can be encoded are rewritten exactly when the
vector column is a list of floats. -/
theorem rewriteRows_iff (hK : ArrowPacking P.kernels) {source : Snapshot}
    {physical : List RecordBatch} (hw : WellNamed source.schema)
    (hbs : ∀ b ∈ physical, StoresFields source.schema b.schema.fields)
    (hfin : VectorsFinite source.schema (physical.flatMap RecordBatch.rows))
    (henc : ∀ logical : RecordBatch, logical.schema = source.schema →
      logical.rows = (physical.flatMap RecordBatch.rows).map (logicalRow source.schema) →
        ∃ encoded, encodeUserColumns P.kernels logical = .ok encoded)
    (attempt : ℕ) (slots : ℕ → Slots) (d : Dataset) :
    (∃ written d', rewriteRows P source attempt (CompactionFaults.free slots).files physical d =
      (.ok written, d')) ↔ physical = [] ∨ ∃ index, vectorIndex source.schema = .ok index := by
  by_cases hnil : physical = []
  · subst hnil
    exact ⟨fun _ => .inl rfl, fun _ => ⟨_, d, rfl⟩⟩
  obtain ⟨logical, hschema, hrows, -, hok⟩ := compactedBatches_spec (P := P) hw hbs
  obtain ⟨encoded, hencoded⟩ := henc logical hschema hrows
  obtain ⟨stored, hbatches, hsschema, hsrows, hstores⟩ := hok encoded hencoded
  rw [← hsrows] at hfin
  obtain ⟨entries, d', hruns⟩ := writeRuns_ok P attempt logical stored
    ((stored.rows.map fun r => Cell.uint64 (storedRowId r)).map Cell.toRowId) slots
    (runsOf ((stored.rows.map fun r => Cell.uint64 (storedRowId r)).map Cell.toRowId)) d
  have hindex : vectorIndex stored.schema = vectorIndex source.schema := by
    rw [hsschema, ← hschema]
    exact vectorIndex_encoded hK (by rwa [hschema]) hencoded
  unfold rewriteRows
  rw [if_neg hnil, hbatches, Effect.bind_of_ok (Effect.lift_apply _ _)]
  dsimp only
  rw [typedColumn_rowId hw hstores, Effect.bind_of_ok (Effect.lift_apply _ _),
    Effect.bind_of_ok hruns, buildVectorInsertsWithPhysicalRowIds_of_stored hw hstores hfin, hindex]
  cases vectorIndex source.schema with
  | error e =>
    constructor
    · rintro ⟨written, d', hrun⟩
      cases hrun
    · rintro (h | ⟨index, h⟩)
      · exact absurd h hnil
      · cases h
  | ok index => exact ⟨fun _ => .inr ⟨index, rfl⟩, fun _ => ⟨_, d', rfl⟩⟩

/-! ### The candidate -/

/-- What the environment of a compaction of these live rows grants: a clock, a
next version number, columns that can be encoded, and sizes within those of the
formats. -/
structure CompactionLimits (P : Platform) (clock : Option ℕ) (slots : ℕ → Slots) (d : Dataset)
    (rows : List Row) : Prop where
  time : ∃ now, readClock clock = .ok now
  version : d.current.version + 1 < u64Bound
  encodes : ∀ logical : RecordBatch, logical.schema = d.current.schema →
    logical.rows = rows.map (logicalRow d.current.schema) →
      ∃ encoded, encodeUserColumns P.kernels logical = .ok encoded
  segment : SegmentFits P (rows.filterMap (vectorOf d.current.schema))
  manifest : ∀ snapshot report d₁, compactionCandidate P clock (.free slots) d =
    (.ok (snapshot, report), d₁) → P.format.withinLimits snapshot.manifest = true
  sizes : ∀ report d₁, publishCompaction P clock (.free slots) d = (.ok report, d₁) →
    SizesFit P d₁.store

/-- Live rows that a compaction can rewrite, publish and recover; each maximal run of
consecutive ids becomes a file. -/
structure Compactable (F : Format) (slots : ℕ → Slots) (schema : Schema) (rows : List Row) :
    Prop where
  vectorColumn : ∃ index, vectorIndex schema = .ok index
  ascending : ((rows.filterMap (vectorOf schema)).map VectorInsert.rowId).Pairwise (· < ·)
  bounds : ∀ groups, MaximalRuns storedRowId rows groups → ∀ i g, groups[i]? = some g →
    BoundsSatisfy (fun y => F.floatRoundTrips y = true) schema (slots i) g
  metadata : schema.metadata = []

section

variable {clock : Option ℕ} {slots : ℕ → Slots} {d : Dataset} {cat : Catalog}

/-- The files a compaction reads. -/
abbrev livePhysical (s : Snapshot) (cat : Catalog) : List RecordBatch :=
  (cat.files.map fun f => s.liveBatch f.2).filter fun b => b.numRows ≠ 0

theorem livePhysical_eq_nil {s : Snapshot} (hv : s.Valid P cat) :
    livePhysical s cat = [] ↔ cat.liveRows s.tombstones = [] := by
  rw [← hv.surviving.2, List.flatMap_eq_nil_iff]
  constructor
  · intro hnil b hb
    change b ∈ livePhysical s cat at hb
    rw [hnil] at hb
    cases hb
  · intro hall
    refine List.eq_nil_iff_forall_not_mem.mpr fun b hb => ?_
    have hne := of_decide_eq_true (List.mem_filter.mp hb).2
    exact hne (List.length_eq_zero_iff.mpr (hall b hb))

/-- Without a fault, a candidate takes the rewriting of the rows and the segment. -/
theorem compactionCandidate_eq_ok (hv : d.current.Valid P cat) (hs : cat.StoredIn d.store)
    (htime : ∃ now, readClock clock = .ok now) (hversion : d.current.version + 1 < u64Bound) :
    (∃ snapshot report d₁, compactionCandidate P clock (.free slots) d =
        (.ok (snapshot, report), d₁)) ↔
      ∃ written d₂ segment d₃, rewriteRows P d.current d.writeAttemptCounter
          (CompactionFaults.free slots).files (livePhysical d.current cat)
          { d with writeAttemptCounter := d.writeAttemptCounter + 1 } = (.ok written, d₂) ∧
        buildAndWriteSegment P d.writeAttemptCounter written.inserts written.zoneMap .none d₂ =
          (.ok segment, d₃) := by
  obtain ⟨now, hnow⟩ := htime
  have hissue : ∀ d : Dataset, issueTimestamp clock d =
      (.ok (max d.lastIssuedTimestamp now),
        { d with lastIssuedTimestamp := max d.lastIssuedTimestamp now }) := by
    intro d
    unfold issueTimestamp
    rw [hnow]
  unfold compactionCandidate
  rw [Effect.reads_bind, id, hv.readSurvivingPhysicalBatches hs,
    Effect.bind_of_ok (Effect.lift_apply _ _), checkedAdd_eq_ok.mpr ⟨rfl, hversion⟩,
    Effect.bind_of_ok (Effect.lift_apply _ _), Effect.bind_of_ok (rfl : nextAttempt d = _)]
  constructor
  · rintro ⟨snapshot, report, d₁, hrun⟩
    rw [Effect.bind_of_ok (rfl : localCall _ _ _ = (.ok (), _))] at hrun
    obtain ⟨written, d₂, hrewrite, hrun⟩ := Effect.bind_eq_ok.mp hrun
    obtain ⟨segment, d₃, hsegment, -⟩ := Effect.bind_eq_ok.mp hrun
    exact ⟨written, d₂, segment, d₃, hrewrite, hsegment⟩
  · rintro ⟨written, d₂, segment, d₃, hrewrite, hsegment⟩
    rw [Effect.bind_of_ok (rfl : localCall _ _ _ = (.ok (), _)), Effect.bind_of_ok hrewrite,
      show (CompactionFaults.free slots).segment = .none from rfl, Effect.bind_of_ok hsegment,
      Effect.reads_bind, Effect.bind_of_ok (hissue _)]
    exact ⟨_, _, _, rfl⟩

theorem compactionCandidate_iff (hK : ArrowPacking P.kernels) (hv : d.current.Valid P cat)
    (hs : cat.StoredIn d.store)
    (hl : CompactionLimits P clock slots d (cat.liveRows d.current.tombstones)) :
    (∃ snapshot report d₁, compactionCandidate P clock (.free slots) d =
        (.ok (snapshot, report), d₁)) ↔
      cat.liveRows d.current.tombstones = [] ∨
        ((∃ index, vectorIndex d.current.schema = .ok index) ∧
          ((liveVectors d.current cat).map VectorInsert.rowId).Pairwise (· < ·)) := by
  obtain ⟨hbs, hrows⟩ := hv.surviving
  have hn := hv.liveRows_nodup
  have hfin := hv.liveRows_vectorsFinite
  have henc := hl.encodes
  rw [← hrows] at hn hfin henc
  have hrewrite := rewriteRows_iff hK hv.wellNamed hbs hfin henc d.writeAttemptCounter slots
    { d with writeAttemptCounter := d.writeAttemptCounter + 1 }
  rw [livePhysical_eq_nil hv] at hrewrite
  have hinserts : ∀ {written d₂}, rewriteRows P d.current d.writeAttemptCounter
      (CompactionFaults.free slots).files (livePhysical d.current cat)
        { d with writeAttemptCounter := d.writeAttemptCounter + 1 } =
        (.ok written, d₂) → written.inserts = liveVectors d.current cat := by
    intro written d₂ hrun
    obtain ⟨files, -, -, -, -, hins, -⟩ := rewriteRows_spec hv.wellNamed hbs hn hfin hrun
    rw [hins, hrows, liveVectors]
  obtain ⟨n, hne, hdim⟩ := hv.vector_length
  have hlength : ∀ v ∈ liveVectors d.current cat, v.vector.length = n := fun v hmem =>
    hdim v ((List.filter_sublist.filterMap _).subset hmem)
  rw [compactionCandidate_eq_ok hv hs hl.time hl.version]
  constructor
  · rintro ⟨written, d₂, segment, d₃, hwritten, hsegment⟩
    rw [hinserts hwritten] at hsegment
    have hasc := (buildAndWriteSegment_iff hl.segment hne hlength _ _ _).mp ⟨segment, d₃, hsegment⟩
    exact (hrewrite.mp ⟨written, d₂, hwritten⟩).imp_right fun hindex => ⟨hindex, hasc⟩
  · intro hcond
    obtain ⟨written, d₂, hwritten⟩ := hrewrite.mpr (hcond.imp_right And.left)
    have hasc : ((liveVectors d.current cat).map VectorInsert.rowId).Pairwise (· < ·) := by
      rcases hcond with hnil | hcond
      · simp [liveVectors, hnil]
      · exact hcond.2
    obtain ⟨segment, d₃, hsegment⟩ := (buildAndWriteSegment_iff hl.segment hne hlength
      d.writeAttemptCounter written.zoneMap d₂).mpr hasc
    refine ⟨written, d₂, segment, d₃, hwritten, ?_⟩
    rw [hinserts hwritten]
    exact hsegment

/-! ### Publication -/

/-- The candidate's manifest is accepted exactly when the bounds of its row files
survive their encoding: those of its segment do, since they come from the source. -/
theorem Compacts.decodes_iff {d₁ : Dataset} {ts : ℤ} {inputs : ℕ → FileInput}
    {files : List (DataFileEntry × RecordBatch)} {segment : Option PublishedSegment}
    (h : Compacts P d d₁ cat files segment) (hb : RunBounds d.current.schema inputs files)
    (hlimits : P.format.withinLimits (compacted d d₁ ts files segment).manifest = true) :
    decodeManifest P.format (d.current.version + 1) (compacted d d₁ ts files segment).manifest =
        .ok (compacted d d₁ ts files segment).manifest ↔
      ∀ i f, files[i]? = some f → BoundsSatisfy (fun y => P.format.floatRoundTrips y = true)
        d.current.schema (inputs i).slots f.2.rows := by
  obtain ⟨-, -, hsource, -, hschema⟩ := decodeManifest_eq_ok.mp h.source.decodes
  rw [List.all_eq_true] at hsource
  have hmem : ∀ y ∈ (compacted d d₁ ts files segment).manifest.floats,
      (∃ f ∈ files, y ∈ Stats.floats f.1.stats) ∨ y ∈ d.current.manifest.floats := by
    intro y hy
    rcases List.mem_append.mp hy with hy | hy
    · obtain ⟨e, he, hy⟩ := List.mem_flatMap.mp hy
      obtain ⟨f, hf, rfl⟩ := List.mem_map.mp he
      exact .inl ⟨f, hf, hy⟩
    · obtain ⟨e, he, hy⟩ := List.mem_flatMap.mp hy
      obtain ⟨p, hp, rfl⟩ := Option.map_eq_some_iff.mp (Option.mem_toList.mp he)
      rw [(h.segment_written p hp).zoneMap] at hy
      obtain ⟨stats, hstats, hy⟩ := floats_zoneMapOf hy
      obtain ⟨f, hf, rfl⟩ := List.mem_map.mp hstats
      refine .inr (Manifest.mem_floats_of_file ?_ hy)
      rw [h.source.files_eq]
      exact List.mem_map_of_mem hf
  simp only [decodeManifest_eq_ok, List.all_eq_true]
  constructor
  · rintro ⟨-, -, hall, -⟩ i f hf
    refine (hb i f hf _).mp fun y hy => hall y ?_
    exact Manifest.mem_floats_of_file (List.mem_map_of_mem (List.mem_of_getElem? hf)) hy
  · intro hall
    refine ⟨trivial, hlimits, fun y hy => ?_, rfl, hschema⟩
    rcases hmem y hy with ⟨f, hf, hy⟩ | hy
    · obtain ⟨i, hi⟩ := List.mem_iff_getElem?.mp hf
      exact (hb i f hi _).mpr (hall i f hi) y hy
    · exact hsource y hy

theorem publishCompaction_iff (hK : ArrowPacking P.kernels) (hv : d.current.Valid P cat)
    (hs : cat.StoredIn d.store) (hfree : d.store.get (.manifest (d.current.version + 1)) = none)
    (hl : CompactionLimits P clock slots d (cat.liveRows d.current.tombstones)) :
    (∃ report d₁, publishCompaction P clock (.free slots) d = (.ok report, d₁)) ↔
      cat.liveRows d.current.tombstones = [] ∨
        ((∃ index, vectorIndex d.current.schema = .ok index) ∧
          ((liveVectors d.current cat).map VectorInsert.rowId).Pairwise (· < ·) ∧
          ∀ groups, MaximalRuns storedRowId (cat.liveRows d.current.tombstones) groups →
            ∀ i g, groups[i]? = some g → BoundsSatisfy
              (fun y => P.format.floatRoundTrips y = true) d.current.schema (slots i) g) := by
  have hcandidate := compactionCandidate_iff hK hv hs hl
  have hdecodes : ∀ {snapshot report d₁},
      compactionCandidate P clock (.free slots) d = (.ok (snapshot, report), d₁) →
        ((∃ report d₂, publishCompaction P clock (.free slots) d = (.ok report, d₂)) ↔
          ∀ groups, MaximalRuns storedRowId (cat.liveRows d.current.tombstones) groups →
            ∀ i g, groups[i]? = some g → BoundsSatisfy
              (fun y => P.format.floatRoundTrips y = true) d.current.schema (slots i) g) := by
    intro snapshot report d₁ hcand
    obtain ⟨ts, files, segment, hc, hb, rfl, -⟩ := compactionCandidate_spec hv hs hcand
    have hdec := hc.decodes_iff hb (hl.manifest _ _ _ hcand)
    have hfree₁ : d₁.store.get (.manifest (d.current.version + 1)) = none := by
      rw [hc.advances.manifest_eq, hfree]
    rw [publishCompaction, Effect.bind_of_ok hcand]
    refine (publish_iff hfree₁ rfl).trans (hdec.trans ?_)
    constructor
    · intro hall groups hruns i g hg
      rw [hruns.unique hc.rows.runs, List.getElem?_map, Option.map_eq_some_iff] at hg
      obtain ⟨f, hf, rfl⟩ := hg
      exact hall i f hf
    · exact fun hall i f hf => hall _ hc.rows.runs i _ (by rw [List.getElem?_map, hf]; rfl)
  constructor
  · rintro ⟨report, d₁, hrun⟩
    have hrun' := hrun
    unfold publishCompaction at hrun'
    obtain ⟨⟨snapshot, report'⟩, d₂, hcand, -⟩ := Effect.bind_eq_ok.mp hrun'
    have hbounds := (hdecodes hcand).mp ⟨report, d₁, hrun⟩
    exact (hcandidate.mp ⟨snapshot, report', d₂, hcand⟩).imp_right fun ⟨hindex, hasc⟩ =>
      ⟨hindex, hasc, hbounds⟩
  · intro hcond
    obtain ⟨snapshot, report, d₁, hcand⟩ := hcandidate.mpr
      (hcond.imp_right fun ⟨hindex, hasc, _⟩ => ⟨hindex, hasc⟩)
    refine (hdecodes hcand).mpr fun groups hruns i g hg => ?_
    rcases hcond with hnil | ⟨-, -, hbounds⟩
    · exact absurd hnil (hruns.ne_nil (List.mem_of_getElem? hg))
    · exact hbounds groups hruns i g hg

end

/-! ### Reclamation -/

/-- The rewritten files carry no metadata, so the schema must not either. -/
theorem Compacts.passes_iff {d d₁ : Dataset} {ts : ℤ} {files : List (DataFileEntry × RecordBatch)}
    {segment : Option PublishedSegment} (h : Compacts P d d₁ cat files segment)
    (hv : (compacted d d₁ ts files segment).Valid P (Catalog.fresh files segment)) :
    (compacted d d₁ ts files segment).PassesUnder d.current.schema
        (d₁.published (compacted d d₁ ts files segment) []).store ↔
      cat.liveRows d.current.tombstones = [] ∨ d.current.schema.metadata = [] := by
  have hnil : (compacted d d₁ ts files segment).manifest.dataFiles = [] ↔
      cat.liveRows d.current.tombstones = [] := by
    rw [← h.fresh_rows]
    show files.map Prod.fst = [] ↔ files.flatMap (fun f => f.2.rows) = []
    rw [List.map_eq_nil_iff, List.flatMap_eq_nil_iff]
    refine ⟨by rintro rfl; simp, fun hall => List.eq_nil_iff_forall_not_mem.mpr fun f hf => ?_⟩
    exact (h.rows.runs.consecutive _ (List.mem_map_of_mem hf)).1 (hall f hf)
  have hstored : (Catalog.fresh files segment).StoredIn
      (d₁.published (compacted d d₁ ts files segment) []).store := h.storedIn.insert _
  unfold Snapshot.PassesUnder
  rw [hnil, hv.carriesMetadata_iff hstored]
  by_cases hempty : cat.liveRows d.current.tombstones = []
  · simp [hempty]
  · have hne : files ≠ [] := by
      rintro rfl
      exact hempty (hnil.mp rfl)
    obtain ⟨f, hf⟩ := List.exists_mem_of_ne_nil files hne
    simp only [hempty, false_or]
    constructor
    · rintro ⟨-, hkept⟩
      rw [← h.rows.metadata f hf]
      exact (hkept f hf).symm
    · intro hmeta
      exact ⟨rfl, fun f hf => (h.rows.metadata f hf).trans hmeta.symm⟩

/-- Within the counters' range, the reclamation after a compaction goes through
exactly when every live version passes. -/
theorem System.Inv.reclaim_iff {s : System} (h : s.Inv P) (hfit : SizesFit P s.dataset.store) :
    (∃ plan r d, reclaimPlan P s.dataset.current.schema s.live s.dataset.store = .ok plan ∧
      deleteCandidates (fun _ => .none) 0 0 0 plan s.dataset = (.ok r, d)) ↔
      ∀ b ∈ s.dataset.current :: s.held,
        b.PassesUnder s.dataset.current.schema s.dataset.store := by
  rw [← h.protectVersions_iff fun _ hb => hb]
  constructor
  · rintro ⟨plan, r, d, hplan, -⟩
    obtain ⟨kept, hkept, -⟩ := bind_eq_ok.mp hplan
    exact ⟨kept, hkept⟩
  · rintro ⟨kept, hkept⟩
    obtain ⟨listed, hlisted, -⟩ := h.recorded.reachableFrom fun v hv =>
      (listedVersions_perm s.dataset.store).mem_iff.mp hv
    have hplan : reclaimPlan P s.dataset.current.schema s.live s.dataset.store = .ok
        (((listed.dedup.filter fun n => n ∈ s.dataset.store.dataObjects ∧ n ∉ kept).map
          fun n => (Key.data n, sizeOf P s.dataset.store (.data n))).map .ok) := by
      unfold reclaimPlan
      rw [show s.live = liveVersions s.dataset.current s.held from rfl, hkept, ok_bind, hlisted,
        ok_bind, filterMap_reclaimCandidate (h.protected_present (fun _ hb => hb) hkept)]
      rfl
    set names := listed.dedup.filter fun n => n ∈ s.dataset.store.dataObjects ∧ n ∉ kept
    have hmem : ∀ n ∈ names, n ∈ s.dataset.store.dataObjects := fun n hn =>
      (of_decide_eq_true (List.mem_filter.mp hn).2).1
    have hnodup : names.Nodup := (List.nodup_dedup listed).filter _
    have hsub : names.Subperm s.dataset.store.dataObjects := hnodup.subperm hmem
    obtain ⟨r, d, hrun⟩ := deleteData_ok (P := P) (d := s.dataset) hnodup hmem
      (hsub.length_le.trans_lt hfit.data_count) (by
        obtain ⟨sub, hperm, hsub⟩ := hsub
        rw [← (hperm.map _).sum_eq]
        exact ((hsub.map _).sum_le_sum fun _ _ => Nat.zero_le _).trans_lt hfit.data_bytes)
    exact ⟨_, r, d, hplan, hrun⟩

/-! ### The whole compaction -/

/-- With no storage fault, within the limits and with no other live snapshot, a
compaction succeeds exactly on no live rows or on compactable ones. -/
theorem compaction_iff_compactable {s : System} (h : (system P).Reachable s)
    (hquiet : s.quiet = true) (hheld : s.held = []) (hK : ArrowPacking P.kernels)
    {live : RecordBatch}
    (hlive : s.dataset.current.scan P s.dataset.store (fullSchema s.dataset.current.schema) =
      .ok live) {clock : Option ℕ} {slots : ℕ → Slots}
    (hl : CompactionLimits P clock slots s.dataset live.rows) :
    (∃ report d, compact P true s.held clock (.free slots) s.dataset = (.ok report, d)) ↔
      live.rows = [] ∨ Compactable P.format slots s.dataset.current.schema live.rows := by
  have hi := System.inv_of_reachable h
  obtain ⟨cat, hv, hs, -⟩ := hi.recorded.valid
  obtain ⟨live', hlive', hrows⟩ := hv.scan_full hs
  rw [hlive] at hlive'
  obtain rfl := Except.ok.inj hlive'
  rw [hrows] at hl ⊢
  have hpublish := publishCompaction_iff hK hv hs hi.recorded.latest.free hl
  -- What follows a publication, in the state it leaves.
  have hreclaim : ∀ {report d₁},
      publishCompaction P clock (.free slots) s.dataset = (.ok report, d₁) →
      ((∃ plan r d, reclaimPlan P d₁.current.schema (liveVersions d₁.current s.held) d₁.store =
          .ok plan ∧ deleteCandidates (fun _ => .none) 0 0 0 plan d₁ = (.ok r, d)) ↔
        cat.liveRows s.dataset.current.tombstones = [] ∨
          s.dataset.current.schema.metadata = []) := by
    intro report d₁ hpub
    have hstep : (system P).step s (.compact clock (.free slots)) = some { s with
        dataset := d₁
        executor := .compacted
        history := s.record d₁ .compaction } := by
      show systemStep P s (.compact clock (.free slots)) = _
      simp only [systemStep, lifecycleStep, hquiet, hpub, if_true]
      rfl
    have hi' := System.inv_of_reachable (h.step hstep)
    refine (hi'.reclaim_iff (hl.sizes report d₁ hpub)).trans ?_
    obtain ⟨d₂, ts, files, segment, hc, -, rfl, hv'⟩ | ⟨⟨e, he⟩, -⟩ :=
      publishCompaction_cases hv hs hi.recorded.rowIds_le hi.recorded.latest.free hpub
    swap
    · cases he
    rw [← hc.passes_iff hv']
    show (∀ b ∈ compacted s.dataset d₂ ts files segment :: s.held, _) ↔ _
    rw [hheld, List.forall_mem_singleton]
    rfl
  constructor
  · rintro ⟨report, d, hrun⟩
    obtain ⟨published, d₁, plan, r, hpub, hplan, hdel⟩ := compact_eq_ok hrun
    have hmeta := (hreclaim hpub).mp ⟨plan, r, d, hplan, hdel⟩
    rcases hpublish.mp ⟨published, d₁, hpub⟩ with hnil | ⟨hindex, hasc, hfin⟩
    · exact .inl hnil
    · exact hmeta.imp_right fun hmeta => ⟨hindex, hasc, hfin, hmeta⟩
  · intro hcond
    obtain ⟨published, d₁, hpub⟩ := hpublish.mpr
      (hcond.imp_right fun hc => ⟨hc.vectorColumn, hc.ascending, hc.bounds⟩)
    obtain ⟨plan, r, d, hplan, hdel⟩ := (hreclaim hpub).mpr
      (hcond.imp_right Compactable.metadata)
    obtain ⟨report, hrun⟩ := compact_of_parts hpub hplan hdel
    exact ⟨report, d, hrun⟩

/-! ### Two commits in one order or the other -/

/-- A platform that packs only what arrow packs. -/
def arrowPlatform : Platform := { plainPlatform with kernels := arrowKernels }

/-- A table of one column of vectors, with one coordinate each. -/
def vectorSchema : Schema := ⟨[Field.new vectorColumn (.fixedSizeList .float32 false 1) true], []⟩

def originBatch : RecordBatch := batchOf vectorSchema [[.vector [Binary.zero 8 23]]]

/-- Two transactions insert a vector each and claim row ids in turn, then publish
in the order given. -/
def twoVectors (first second : ℕ) : List Label :=
  [.begin, .begin, .insert 0 originBatch, .insert 1 originBatch, .start 0 (some 1),
    .start 1 (some 1), .number 0 {}, .number 1 {}, .claim 0 fun _ => {}, .claim 1 fun _ => {},
    .write 0 {}, .write 1 {}, .index 0 {}, .index 1 {}, .publish first .none,
    .publish second .none]

/-- The stored row of a vector. -/
def originRow (rowId : ℕ) : Row := [.vector [Binary.zero 8 23], .uint64 rowId, .int64 1]

/-- There are no floats in the slots of nulls. -/
def noSlots : ℕ → Slots := fun _ _ _ => Binary.zero 11 52

theorem twoVectors_limits {d : Dataset} {i j : ℕ} (hschema : d.current.schema = vectorSchema)
    (hversion : d.current.version = 2)
    (hsizes : SizesFit arrowPlatform
      (publishCompaction arrowPlatform (some 1) (.free noSlots) d).2.store) :
    CompactionLimits arrowPlatform (some 1) noSlots d [originRow i, originRow j] := by
  constructor
  case time => exact ⟨1, rfl⟩
  case version =>
    rw [hversion]
    decide
  case encodes =>
    rintro ⟨schema, rows, fits⟩ hs hr
    rw [hschema] at hs hr
    obtain rfl : schema = vectorSchema := hs
    obtain rfl : rows = [[.vector [Binary.zero 8 23]], [.vector [Binary.zero 8 23]]] := hr
    change ∃ encoded, encodeUserColumns arrowKernels (batchOf vectorSchema
      [[.vector [Binary.zero 8 23]], [.vector [Binary.zero 8 23]]]) = .ok encoded
    exact exists_ok_of_isOk (by decide +kernel)
  case segment =>
    rw [hschema]
    have hfit : (arrowPlatform.builder.build
        [[Binary.zero 8 23], [Binary.zero 8 23]]).toOption.all (fun graph => (Segment.mk [i, j] 1
          [[Binary.zero 8 23], [Binary.zero 8 23]] graph).sectionsFit) = true := by
      have hgraph : ((arrowPlatform.builder.build
          [[Binary.zero 8 23], [Binary.zero 8 23]]).toOption.all fun graph =>
            (Segment.mk [0, 0] 1 [[Binary.zero 8 23], [Binary.zero 8 23]] graph).sectionsFit) =
          true := by
        decide +kernel
      exact hgraph
    refine ⟨show 2 * 8 < 2 ^ 32 by decide, show 1 < 2 ^ 32 by decide, fun graph hgraph => ?_⟩
    change arrowPlatform.builder.build [[Binary.zero 8 23], [Binary.zero 8 23]] = _ at hgraph
    rw [hgraph] at hfit
    exact hfit
  case manifest => exact fun _ _ _ _ => rfl
  case sizes =>
    intro report d₁ hpub
    rwa [hpub] at hsizes

/-- What a run of the two commits leaves: two rows in scan order, no other live
snapshot and a compaction within all limits. -/
theorem twoVectors_run (first second i j : ℕ)
    (hrun : (runOn arrowPlatform vectorSchema (twoVectors first second)).map (fun s =>
      (s.quiet, s.held.length, s.dataset.current.schema, s.dataset.current.version)) =
        some (true, 0, vectorSchema, 2))
    (hscan : (runOn arrowPlatform vectorSchema (twoVectors first second)).bind (fun s =>
      (s.dataset.current.scan arrowPlatform s.dataset.store (fullSchema vectorSchema)).toOption.map
        RecordBatch.rows) = some [originRow i, originRow j])
    (hsize : (runOn arrowPlatform vectorSchema (twoVectors first second)).all (fun s =>
      let store := (publishCompaction arrowPlatform (some 1) (.free noSlots) s.dataset).2.store
      store.keys.length < u64Bound ∧
        (store.keys.map (sizeOf arrowPlatform store)).sum < u64Bound) = true) :
    ∃ s live, runOn arrowPlatform vectorSchema (twoVectors first second) = some s ∧
      s.quiet = true ∧ s.held = [] ∧ s.dataset.current.schema = vectorSchema ∧
      s.dataset.current.scan arrowPlatform s.dataset.store
        (fullSchema s.dataset.current.schema) = .ok live ∧
      live.rows = [originRow i, originRow j] ∧
      CompactionLimits arrowPlatform (some 1) noSlots s.dataset live.rows := by
  obtain ⟨s, hs, hout⟩ := Option.map_eq_some_iff.mp hrun
  rw [hs] at hscan hsize
  simp only [Prod.mk.injEq, Option.bind_some, Option.all_some, decide_eq_true_eq]
    at hout hscan hsize
  obtain ⟨hquiet, hheld, hschema, hversion⟩ := hout
  rw [← hschema] at hscan
  obtain ⟨live, hlive, hrows⟩ := Option.map_eq_some_iff.mp hscan
  refine ⟨s, live, hs, hquiet, List.length_eq_zero_iff.mp hheld, hschema,
    toOption_eq_some.mp hlive, hrows, ?_⟩
  rw [hrows]
  exact twoVectors_limits hschema hversion ⟨hsize.1, hsize.2⟩

/-- Published in the order of their claims, the two vectors are compacted. -/
theorem compaction_iff_compactable_ordered :
    ∃ s, runOn arrowPlatform vectorSchema (twoVectors 0 1) = some s ∧
      ∃ report d, compact arrowPlatform true s.held (some 1) (.free noSlots) s.dataset =
        (.ok report, d) := by
  obtain ⟨s, live, hs, hquiet, hheld, hschema, hlive, hrows, hl⟩ :=
    twoVectors_run 0 1 0 1 (by decide +kernel) (by decide +kernel) (by decide +kernel)
  refine ⟨s, hs, (compaction_iff_compactable (reachable_runOn hs) hquiet hheld arrowKernels_packing
    hlive hl).mpr (.inr ?_)⟩
  rw [hschema, hrows]
  refine ⟨⟨some 0, rfl⟩, by decide, fun groups _ i g _ k f hk hf => ?_, rfl⟩
  -- There is no float column.
  obtain rfl := List.mem_singleton.mp (List.mem_of_getElem? hk)
  cases hf

/-- Published in the other order, they are not: the segment refuses their ids. -/
theorem compaction_fails_crossed :
    ∃ s live, runOn arrowPlatform vectorSchema (twoVectors 1 0) = some s ∧ s.quiet = true ∧
      s.held = [] ∧ s.dataset.current.scan arrowPlatform s.dataset.store
        (fullSchema s.dataset.current.schema) = .ok live ∧
      CompactionLimits arrowPlatform (some 1) noSlots s.dataset live.rows ∧
      (compact arrowPlatform true s.held (some 1) (.free noSlots) s.dataset).1 =
        .error (.index (.segmentCorrupt "row_ids must be strictly ascending")) := by
  obtain ⟨s, live, hs, hquiet, hheld, -, hlive, -, hl⟩ :=
    twoVectors_run 1 0 1 0 (by decide +kernel) (by decide +kernel) (by decide +kernel)
  refine ⟨s, live, hs, hquiet, hheld, hlive, hl, ?_⟩
  have hfail : (runOn arrowPlatform vectorSchema (twoVectors 1 0)).map (fun s =>
      (compact arrowPlatform true s.held (some 1) (.free noSlots) s.dataset).1) =
      some (.error (.index (.segmentCorrupt "row_ids must be strictly ascending"))) := by
    decide +kernel
  rw [hs] at hfail
  exact Option.some.inj hfail

end StrataDB.Txn
