import StrataDB.Txn.Compactable
import StrataDB.Txn.Lookup
import StrataDB.Txn.VectorQuery

/-! What a vector search returns. A valid version can be searched by every query of its
vector column's dimension; the rows found are live, satisfy the filter and carry the
distance of their own vector, whichever segments the zone maps leave out. -/

namespace StrataDB.Txn

open Lib Arrow Index Storage Query

variable {P : Platform} {D : Distances} {s : Snapshot} {cat : Catalog} {store : Store}
  {q : DatasetSchema} {request : VectorSearchRequest} {hydration : Option (List String)}

/-! ### Validated requests -/

/-- What a validated request says. -/
structure RequestValid (q : DatasetSchema) (request : VectorSearchRequest)
    (hydration : Option (List String)) : Prop where
  k_ne_zero : request.k ≠ 0
  column : q.Has vectorColumn (.vector request.query.length)
  filter : q.validateFilter? request.filter = .ok ()
  hydration : ∀ names ∈ hydration, ∃ projection, request.hydration = .projection projection ∧
    q.validateProjection projection = .ok names

theorem validateVectorSearch_eq_ok (h : q.validateVectorSearch request = .ok hydration) :
    RequestValid q request hydration := by
  simp only [DatasetSchema.validateVectorSearch, bind_eq_ok, require_eq_ok, orElse_eq_ok] at h
  obtain ⟨_, hk, _, hcolumn, field, hfield, dimensions, htype, _, -, _, hlength, _, hfilter,
    hhydration⟩ := h
  obtain ⟨hmem, hname⟩ := DatasetSchema.column_eq_ok hfield
  refine ⟨hk, ⟨field, hmem, hname.trans hcolumn, ?_⟩, hfilter, fun names hnames => ?_⟩
  · cases hdata : field.dataType <;> rw [hdata] at htype <;> cases htype
    rw [hlength]
  · split at hhydration
    · cases hhydration
      cases hnames
    · rename_i projection heq
      simp only [bind_eq_ok, pure_eq_ok] at hhydration
      obtain ⟨names', hproj, rfl⟩ := hhydration
      cases hnames
      exact ⟨projection, heq, hproj⟩

/-- The columns of a validated projection can be asked for by name. -/
theorem validateProjection_columns (hw : WellNamed s.schema) (hq : s.querySchema = .ok q)
    {projection : Projection} {names : List String}
    (h : q.validateProjection projection = .ok names) :
    q.validateProjection (.columns names) = .ok names := by
  have hcolumn : ∀ name ∈ names, ∃ c, q.column name = .ok c := by
    intro name hname
    obtain ⟨c, hc, rfl⟩ := DatasetSchema.validateProjection_mem h name hname
    obtain ⟨f, hf, hfname, -⟩ := exists_field_of_column hq hc
    have hfind : ∃ c', (q.columns.find? fun c' => c'.name == c.name) = some c' := by
      rw [← Option.isSome_iff_exists, List.find?_isSome]
      exact ⟨c, hc, by simp⟩
    obtain ⟨c', hc'⟩ := hfind
    refine ⟨c', ?_⟩
    simp only [DatasetSchema.column, validateUserColumnName, bind_eq_ok, require_eq_ok,
      orElse_eq_ok]
    exact ⟨(), hfname ▸ hw.not_hidden f hf, hc'⟩
  have hgo : ∀ {rest seen : List String}, (∀ name ∈ rest, ∃ c, q.column name = .ok c) →
      rest.Nodup → (∀ name ∈ rest, name ∉ seen) →
      DatasetSchema.validateProjection.go q seen rest = .ok () := by
    intro rest
    induction rest with
    | nil => exact fun _ _ _ => rfl
    | cons n rest ih =>
      intro seen hcols hnodup hseen
      rw [List.forall_mem_cons] at hcols hseen
      rw [List.nodup_cons] at hnodup
      obtain ⟨c, hc⟩ := hcols.1
      simp only [DatasetSchema.validateProjection.go, bind_eq_ok, require_eq_ok]
      refine ⟨c, hc, (), hseen.1, ih hcols.2 hnodup.2 fun name hname hmem => ?_⟩
      rcases List.mem_cons.mp hmem with rfl | hmem
      · exact hnodup.1 hname
      · exact hseen.2 name hname hmem
  have hnodup := DatasetSchema.validateProjection_nodup (querySchema_nodup hw hq) h
  rw [DatasetSchema.validateProjection, hgo hcolumn hnodup (by simp)]
  rfl

/-! ### The order of hits -/

variable {a b : ℕ × F32} {hits : List VectorHit} {r : Row} {g : SegmentEntry × Segment}
  {query : Vector}

theorem ranksBefore_iff : ranksBefore a b = true ↔
    a.2.totalKey < b.2.totalKey ∨ a.2.totalKey = b.2.totalKey ∧ a.1 < b.1 := by
  simp [ranksBefore, nearer]

theorem not_ranksBefore_iff : ranksBefore a b = false ↔
    b.2.totalKey < a.2.totalKey ∨ b.2.totalKey = a.2.totalKey ∧ b.1 ≤ a.1 := by
  rw [← Bool.not_eq_true, ranksBefore_iff]
  omega

theorem sortMatches_perm (found : List VectorMatch) :
    (Snapshot.sortMatches found).Perm found :=
  List.mergeSort_perm ..

theorem sortMatches_pairwise (found : List VectorMatch) :
    (Snapshot.sortMatches found).Pairwise fun a b =>
      ranksBefore (b.rowId, b.squaredDistance) (a.rowId, a.squaredDistance) = false := by
  refine (List.pairwise_mergeSort (fun a b c hab hbc => ?_) (fun a b => ?_) found).imp
    fun h => by simpa using h
  · rw [Bool.not_eq_true', not_ranksBefore_iff] at hab hbc ⊢
    dsimp only at hab hbc ⊢
    omega
  · rw [Bool.or_eq_true, Bool.not_eq_true', Bool.not_eq_true', not_ranksBefore_iff,
      not_ranksBefore_iff]
    dsimp only
    omega

/-- Hits that pass every check of `VectorSearchResult::new`. -/
theorem checkHits_eq_ok {projection : Option (List String)}
    (hfin : ∀ h ∈ hits, h.squaredL2Distance.isFinite = true)
    (hpos : ∀ h ∈ hits, Binary.lt h.squaredL2Distance (Binary.zero 8 23) = false)
    (hhyd : ∀ h ∈ hits, checkHydration projection h = .ok ())
    (hsorted : hits.Pairwise fun a b =>
      ranksBefore (b.rowId, b.squaredL2Distance) (a.rowId, a.squaredL2Distance) = false)
    {previous : Option (ℕ × F32)}
    (hprev : ∀ p ∈ previous, ∀ h ∈ hits, ranksBefore (h.rowId, h.squaredL2Distance) p = false) :
    checkHits projection previous hits = .ok () := by
  induction hits generalizing previous with
  | nil => rfl
  | cons hit hits ih =>
    rw [List.forall_mem_cons] at hfin hpos hhyd
    rw [List.pairwise_cons] at hsorted
    have hfirst : previous.all (fun p =>
        !ranksBefore (hit.rowId, hit.squaredL2Distance) p) = true := by
      cases previous with
      | none => rfl
      | some p => simp [hprev p rfl hit List.mem_cons_self]
    rw [checkHits, ensure_of _ hfin.1, ok_bind, ensure_of _ hpos.1, ok_bind, ensure_of _ hfirst,
      ok_bind, hhyd.1, ok_bind]
    refine ih hfin.2 hpos.2 hhyd.2 hsorted.2 ?_
    rintro p ⟨⟩ h hh
    exact hsorted.1 h hh

/-! ### Hydration -/

theorem projectedRow_names {schema : Schema} {projection : List String} {row : ProjectedRow}
    (h : projectedRow schema projection r = .ok row) :
    row.fields.map ProjectedField.name = projection := by
  simp only [projectedRow, bind_eq_ok, pure_eq_ok] at h
  obtain ⟨fields, hfields, rfl⟩ := h
  have hall := mapM_eq_ok.mp hfields
  refine map_eq_of_forall₂ (f := id) (hall.imp fun name field hfield => ?_) |>.trans
    (List.map_id _)
  simp only [bind_eq_ok, pure_eq_ok] at hfield
  obtain ⟨v, -, rfl⟩ := hfield
  rfl

/-- What a hit for a row shows of it. -/
def HydratedBy (s : Snapshot) (hydration : Option (List String)) (r : Row) :
    VectorHydrationState → Prop
  | .notRequested => hydration = none
  | .hydrated row => ∃ names, hydration = some names ∧
      projectedRow (fullSchema s.schema) names r = .ok row
  | .unresolved _ => False

theorem HydratedBy.check {state : VectorHydrationState} (h : HydratedBy s hydration r state)
    (rowId : ℕ) (distance : F32) : checkHydration hydration ⟨rowId, distance, state⟩ = .ok () := by
  cases state with
  | notRequested =>
    obtain rfl : hydration = none := h
    rfl
  | hydrated row =>
    obtain ⟨names, rfl, hrow⟩ := h
    exact ensure_of _ (projectedRow_names hrow)
  | unresolved e => exact h.elim

theorem Snapshot.Valid.hydrate (hv : s.Valid P cat) (hs : cat.StoredIn store)
    (hq : s.querySchema = .ok q) (hreq : RequestValid q request hydration)
    (hread : ∀ names ∈ hydration, Readable s.schema names) (hr : r ∈ cat.liveRows s.tombstones) :
    ∃ state, s.hydrate P store hydration (storedRowId r) = .ok state ∧
      HydratedBy s hydration r state := by
  cases hydration with
  | none => exact ⟨.notRequested, rfl, rfl⟩
  | some names =>
    obtain ⟨projection, -, hproj⟩ := hreq.hydration names rfl
    have hval : q.validateRowLookup ⟨storedRowId r, .columns names⟩ = .ok names :=
      validateProjection_columns hv.wellNamed hq hproj
    obtain ⟨row, hrow⟩ := exists_projectedRow_full hv.wellNamed
      (Catalog.fits hv (List.mem_of_mem_filter hr)) hq hval (hread names rfl)
    refine ⟨.hydrated row, ?_, names, rfl, hrow⟩
    rw [Snapshot.hydrate, hv.lookupRow_live hs hq hval hr rfl, hrow]
    rfl

/-! ### Segments that can be searched -/

theorem Snapshot.Valid.exists_row_of_vector (hv : s.Valid P cat) (hg : g ∈ cat.segments)
    {i rowId : ℕ} {v : Vector} (hrow : g.2.rowIds[i]? = some rowId)
    (hvec : g.2.vectors[i]? = some v) :
    ∃ r ∈ cat.rows, vectorOf s.schema r = some ⟨rowId, v⟩ ∧ storedRowId r = rowId := by
  have hmem : (⟨rowId, v⟩ : VectorInsert) ∈ cat.vectors := by
    refine List.mem_flatMap.mpr ⟨g, hg, List.mem_of_getElem? (i := i) ?_⟩
    rw [List.getElem?_zipWith, hrow, hvec]
  rw [hv.vectors_eq] at hmem
  obtain ⟨r, hr, hof⟩ := List.mem_filterMap.mp hmem
  refine ⟨r, hr, hof, ?_⟩
  simp only [vectorOf, Option.bind_eq_some_iff, Option.map_eq_some_iff] at hof
  obtain ⟨_, -, _, -, heq⟩ := hof
  exact congrArg VectorInsert.rowId heq

/-- The vector of a stored row has the dimension of the column. -/
theorem vectorOf_length (hw : WellNamed s.schema) (hq : s.querySchema = .ok q) {n : ℕ}
    (hcol : q.Has vectorColumn (.vector n)) (hr : fitsFields (fullFields s.schema) r = true)
    {v : VectorInsert} (hv : vectorOf s.schema r = some v) : v.vector.length = n := by
  simp only [vectorOf, Option.bind_eq_some_iff, Option.map_eq_some_iff] at hv
  obtain ⟨k, hk, xs, hxs, rfl⟩ := hv
  obtain ⟨f, hf, hname, -⟩ := indexOf_eq_some hk
  have htype := logicalType_of_has hw hq (List.mem_of_getElem? hf) (hname ▸ hcol)
  have hcell : Row.cell r k = .vector xs := by
    unfold Cell.toVector? at hxs
    split at hxs <;> cases hxs
    assumption
  have haccepts := accepts_cell hr (fullFields_getElem_logical hf)
  rw [hcell] at haccepts
  rcases Field.accepts_cases haccepts with hnull | hhas
  · cases hnull
  · unfold logicalType at htype
    split at htype <;> cases htype
    rename_i hdata
    rw [hdata] at hhas
    simpa [Cell.hasType] using hhas

/-- The index of a valid version can be searched by every query of one dimension. -/
theorem Snapshot.Valid.searchable_of_dimension (hv : s.Valid P cat)
    (h : ∀ g ∈ cat.segments, query.length = g.2.dimension) : Searchable query s.index := by
  rw [hv.index_eq, Catalog.parts]
  refine ⟨fun part hpart => ?_, fun part hpart => ?_, ?_⟩
  · obtain ⟨g, hg, rfl⟩ := List.mem_map.mp hpart
    exact (hv.segmentValid g hg).vectors_length
  · obtain ⟨g, hg, rfl⟩ := List.mem_map.mp hpart
    exact h g hg
  · rw [List.flatMap_map]
    exact hv.vectorIds_nodup

theorem Snapshot.Valid.searchable (hv : s.Valid P cat) (hq : s.querySchema = .ok q)
    (hcol : q.Has vectorColumn (.vector request.query.length)) :
    Searchable request.query s.index := by
  refine hv.searchable_of_dimension fun g hg => ?_
  have hvalid := hv.segmentValid g hg
  have hpos : 0 < g.2.rowIds.length := List.length_pos_of_ne_nil hvalid.rowIds_ne_nil
  have hpos' : 0 < g.2.vectors.length := hvalid.vectors_length ▸ hpos
  obtain ⟨r, hr, hof, -⟩ := hv.exists_row_of_vector hg
    (List.getElem?_eq_getElem hpos) (List.getElem?_eq_getElem hpos')
  rw [← hvalid.vector_length _ (List.getElem_mem hpos')]
  exact (vectorOf_length hv.wellNamed hq hcol (Catalog.fits hv hr) hof).symm

/-! ### Matches -/

/-- The rows a request is about. -/
def Snapshot.Wanted (s : Snapshot) (cat : Catalog) (filter : Option FilterExpression) (r : Row) :
    Prop :=
  r ∈ cat.liveRows s.tombstones ∧ selects (fullSchema s.schema) filter r = true

/-- A search looks for the wanted rows in the segments that it reads. -/
theorem Snapshot.Valid.vectorMatches (hv : s.Valid P cat) (hs : cat.StoredIn store)
    (hq : s.querySchema = .ok q) (hfilter : q.validateFilter? request.filter = .ok ()) :
    ∃ admitted, (∀ r ∈ cat.rows, admitted (storedRowId r) = true ↔
        s.Wanted cat request.filter r) ∧
      ∀ D permits, s.vectorMatches P D store request permits =
        (fanOut D request.query request.k efSearchDefault admitted
          (fun zoneMap => request.filter.all fun f => permits f zoneMap) s.index).map
          fun found => engine (lift .index found) := by
  have hvisible : ∀ r ∈ cat.rows, s.isVisible (storedRowId r) = true ↔
      r ∈ cat.liveRows s.tombstones := fun r hr => by
    simp [Snapshot.isVisible, Catalog.liveRows, hr]
  cases hf : request.filter with
  | none =>
    refine ⟨s.isVisible, fun r hr => ?_, ?_⟩
    · simpa [Snapshot.Wanted, selects] using hvisible r hr
    · intro D permits
      rw [Snapshot.vectorMatches, hf]
      rfl
  | some filter =>
    rw [hf] at hfilter
    have hlive := hv.vectorFilterLiveSet hs hq hfilter
    refine ⟨_, fun r hr => ?_, fun D permits => by
      rw [Snapshot.vectorMatches, hf]
      dsimp only
      rw [hlive]
      rfl⟩
    rw [Bool.and_eq_true, hvisible r hr, LiveSet.contains_fromRowIds, decide_eq_true_eq]
    constructor
    · rintro ⟨hmem, hlive⟩
      obtain ⟨r', hr', hid⟩ := List.mem_map.mp hmem
      obtain ⟨hr'live, hsel⟩ := List.mem_filter.mp hr'
      obtain rfl := List.inj_on_of_nodup_map hv.rowIds_nodup (List.mem_of_mem_filter hr'live) hr hid
      exact ⟨hlive, hsel⟩
    · rintro ⟨hlive, hsel⟩
      exact ⟨List.mem_map_of_mem (List.mem_filter.mpr ⟨hlive, hsel⟩), hlive⟩

/-- A scored row is a wanted row at the distance of its vector. -/
theorem Snapshot.Valid.exists_row_of_scored (hv : s.Valid P cat) (hg : g ∈ cat.segments)
    {admitted : ℕ → Bool} {filter : Option FilterExpression}
    (hadmitted : ∀ r ∈ cat.rows, admitted (storedRowId r) = true ↔ s.Wanted cat filter r)
    {p : Scored} (hp : ScoredBy D query admitted g.2 p) :
    ∃ r v, s.Wanted cat filter r ∧ r ∈ cat.indexedRows g.2 ∧
      vectorOf s.schema r = some ⟨storedRowId r, v⟩ ∧ p = (storedRowId r, D.l2 query v) := by
  obtain ⟨i, v, hrow, hvec, hpass, hdist⟩ := hp
  obtain ⟨r, hr, hof, hid⟩ := hv.exists_row_of_vector hg hrow hvec
  rw [← hid] at hpass hof
  refine ⟨r, v, (hadmitted r hr).mp hpass, ?_, hof, Prod.ext hid.symm hdist⟩
  exact List.mem_filter.mpr ⟨hr, by simpa [hid] using List.mem_of_getElem? hrow⟩

/-! ### Segments left out -/

/-- A zone map that does not permit a filter covers no wanted row. -/
theorem Snapshot.Valid.zoneMapPermits (hv : s.Valid P cat) (hg : g ∈ cat.segments)
    {e : FilterExpression} (hr : r ∈ cat.indexedRows g.2)
    (hsel : selects (fullSchema s.schema) (some e) r = true) :
    Txn.zoneMapPermits e g.1.zoneMap = true := by
  unfold Txn.zoneMapPermits
  cases hp : filterExpressionPruningPredicate e with
  | none => rfl
  | some p =>
    have hfin : ∀ y ∈ Stats.floats g.1.zoneMap, y.isFinite = true := fun y hy => by
      refine isFinite_of_decodes hv.decodes y (Manifest.mem_floats_of_segment ?_ hy)
      rw [hv.segments_eq]
      exact List.mem_map_of_mem hg
    exact (hv.zoneCover g hg).shouldScanFile hfin hp hr (by simpa [selects] using hsel)

/-- Leaving out the segments whose zone maps do not permit the filter changes nothing. -/
theorem Snapshot.Valid.vectorMatches_unpruned (hv : s.Valid P cat) (hs : cat.StoredIn store)
    (hq : s.querySchema = .ok q) (hreq : RequestValid q request hydration) :
    s.vectorMatches P D store request Txn.zoneMapPermits =
      s.vectorMatches P D store request fun _ _ => true := by
  obtain ⟨admitted, hadmitted, hmatches⟩ := hv.vectorMatches hs hq hreq.filter
  have hsearch := hv.searchable hq hreq.column
  cases hf : request.filter with
  | none => rw [Snapshot.vectorMatches, Snapshot.vectorMatches, hf]
  | some e =>
    rw [hf] at hadmitted
    rw [hmatches, hmatches, hf]
    refine congrArg _ (hsearch.fanOut_unpruned D request.k efSearchDefault admitted ?_)
    intro part hpart hskip
    rw [List.eq_nil_iff_forall_not_mem]
    intro p hp
    have hscored := (hsearch.part_spec D request.k efSearchDefault admitted hpart).2.2.1 p hp
    rw [hv.index_eq] at hpart
    obtain ⟨g, hg, rfl⟩ := List.mem_map.mp hpart
    obtain ⟨r, v, ⟨-, hsel⟩, hindexed, -⟩ := hv.exists_row_of_scored hg hadmitted hscored
    have hpermits := hv.zoneMapPermits hg hindexed hsel
    simp [hpermits] at hskip

/-! ### Results -/

/-- The hits of a request, against the rows that a scan shows. -/
structure HitsValid (D : Distances) (s : Snapshot) (rows : List Row)
    (request : VectorSearchRequest) (hydration : Option (List String)) (hits : List VectorHit) :
    Prop where
  length_le : hits.length ≤ request.k
  nodup : (hits.map VectorHit.rowId).Nodup
  hit : ∀ h ∈ hits, ∃ r ∈ rows, storedRowId r = h.rowId ∧
    selects (fullSchema s.schema) request.filter r = true ∧
    (∃ v, vectorOf s.schema r = some ⟨h.rowId, v⟩ ∧
      h.squaredL2Distance = D.mul (D.l2 request.query v) (D.l2 request.query v)) ∧
    HydratedBy s hydration r h.hydration
  sorted : hits.Pairwise fun a b =>
    a.squaredL2Distance.totalKey < b.squaredL2Distance.totalKey ∨
      a.squaredL2Distance.totalKey = b.squaredL2Distance.totalKey ∧ a.rowId < b.rowId

/-- The distances of the rows that a scan shows are finite. -/
def FiniteDistances (D : Distances) (s : Snapshot) (rows : List Row) (query : Vector) : Prop :=
  ∀ r ∈ rows, ∀ v, vectorOf s.schema r = some v →
    (D.mul (D.l2 query v.vector) (D.l2 query v.vector)).isFinite = true

/-- A match and the hit it becomes. -/
structure HitOf (s : Snapshot) (rows : List Row) (hydration : Option (List String))
    (m : VectorMatch) (hit : VectorHit) : Prop where
  rowId : hit.rowId = m.rowId
  distance : hit.squaredL2Distance = m.squaredDistance
  hydrated : ∃ r ∈ rows, storedRowId r = m.rowId ∧ HydratedBy s hydration r hit.hydration

theorem hits_pairwise {rows : List Row} {found : List VectorMatch}
    (h : List.Forall₂ (HitOf s rows hydration) (Snapshot.sortMatches found) hits) :
    hits.Pairwise fun a b =>
      ranksBefore (b.rowId, b.squaredL2Distance) (a.rowId, a.squaredL2Distance) = false :=
  pairwise_of_forall₂ h.flip (sortMatches_pairwise found) fun a b m m' ha hb hab => by
    rwa [ha.rowId, ha.distance, hb.rowId, hb.distance]

/-- Matches of live rows at finite distances become hits one by one. -/
theorem Snapshot.Valid.vectorHits (hv : s.Valid P cat) (hs : cat.StoredIn store)
    (hq : s.querySchema = .ok q) (hreq : RequestValid q request hydration)
    (hread : ∀ names ∈ hydration, Readable s.schema names) {found : List VectorMatch}
    (hlen : found.length ≤ request.k)
    (hlive : ∀ m ∈ found, ∃ r ∈ cat.liveRows s.tombstones, storedRowId r = m.rowId)
    (hfin : ∀ m ∈ found, m.squaredDistance.isFinite = true)
    (hpos : ∀ m ∈ found, Binary.lt m.squaredDistance (Binary.zero 8 23) = false) :
    ∃ hits, s.vectorHits P store request hydration found =
        .ok ⟨request.k, hydration, hits⟩ ∧
      List.Forall₂ (HitOf s (cat.liveRows s.tombstones) hydration)
        (Snapshot.sortMatches found) hits := by
  have hperm := sortMatches_perm found
  have hone : ∀ m ∈ Snapshot.sortMatches found, ∃ hit, (do
      return VectorHit.mk m.rowId m.squaredDistance (← s.hydrate P store hydration m.rowId) :
        Except QueryError VectorHit) = .ok hit ∧
      HitOf s (cat.liveRows s.tombstones) hydration m hit := by
    intro m hm
    obtain ⟨r, hr, hid⟩ := hlive m (hperm.mem_iff.mp hm)
    obtain ⟨state, hstate, hby⟩ := hv.hydrate hs hq hreq hread hr
    rw [hid] at hstate
    exact ⟨⟨m.rowId, m.squaredDistance, state⟩, by rw [hstate]; rfl, rfl, rfl, r, hr, hid, hby⟩
  obtain ⟨hits, hhits, hof⟩ := mapM_ok_of_exists hone
  refine ⟨hits, ?_, hof⟩
  have hmem : ∀ h ∈ hits, ∃ m ∈ found, HitOf s (cat.liveRows s.tombstones) hydration m h := by
    intro h hh
    obtain ⟨m, hm, hhit⟩ := exists_left_of_forall₂ hof hh
    exact ⟨m, hperm.mem_iff.mp hm, hhit⟩
  have hlength : hits.length ≤ request.k := by
    rw [← hof.length_eq, hperm.length_eq]
    exact hlen
  have hchecks : checkHits hydration none hits = .ok () := by
    refine checkHits_eq_ok (fun h hh => ?_) (fun h hh => ?_) (fun h hh => ?_)
      (hits_pairwise hof) nofun
    · obtain ⟨m, hm, hhit⟩ := hmem h hh
      rw [hhit.distance]
      exact hfin m hm
    · obtain ⟨m, hm, hhit⟩ := hmem h hh
      rw [hhit.distance]
      exact hpos m hm
    · obtain ⟨m, hm, hhit⟩ := hmem h hh
      obtain ⟨r, -, -, hby⟩ := hhit.hydrated
      exact hby.check h.rowId h.squaredL2Distance
  rw [Snapshot.vectorHits, hhits, ok_bind, VectorSearchResult.new, ensure_of _ hlength, ok_bind,
    hchecks]
  rfl

/-- The found rows of all parts that a request reads. -/
def Snapshot.found (D : Distances) (s : Snapshot) (request : VectorSearchRequest)
    (admitted : ℕ → Bool) : List Scored :=
  s.index.flatMap fun part => foundRows D request.query request.k efSearchDefault admitted part.1

/-- A valid request on a valid version: as many hits as `k` and the rows found allow. -/
theorem Snapshot.Valid.vectorSearchQuery (hv : s.Valid P cat) (hs : cat.StoredIn store)
    (hq : s.querySchema = .ok q) (hval : q.validateVectorSearch request = .ok hydration)
    (hsquare : ∀ d, Binary.lt (D.mul d d) (Binary.zero 8 23) = false)
    (hfin : FiniteDistances D s (cat.liveRows s.tombstones) request.query)
    (hread : ∀ names ∈ hydration, Readable s.schema names) :
    ∃ admitted hits, (∀ r ∈ cat.rows, admitted (storedRowId r) = true ↔
        s.Wanted cat request.filter r) ∧
      s.vectorSearchQuery P D store request = some (.ok ⟨request.k, hydration, hits⟩) ∧
      HitsValid D s (cat.liveRows s.tombstones) request hydration hits ∧
      hits.length = min request.k (s.found D request admitted).length := by
  have hreq := validateVectorSearch_eq_ok hval
  have hsearch := hv.searchable hq hreq.column
  obtain ⟨admitted, hadmitted, hmatches⟩ := hv.vectorMatches hs hq hreq.filter
  obtain ⟨scored, hfan, hkept⟩ :=
    hsearch.fanOut_spec D request.k efSearchDefault admitted fun _ => true
  rw [List.filter_true] at hkept
  -- every row kept is a wanted row
  have hrow : ∀ p ∈ scored, ∃ r v, s.Wanted cat request.filter r ∧
      vectorOf s.schema r = some ⟨storedRowId r, v⟩ ∧
        p = (storedRowId r, D.l2 request.query v) := by
    intro p hp
    obtain ⟨part, hpart, hp⟩ := List.mem_flatMap.mp (hkept.subset p hp)
    have hscored := (hsearch.part_spec D request.k efSearchDefault admitted hpart).2.2.1 p hp
    rw [hv.index_eq] at hpart
    obtain ⟨g, hg, rfl⟩ := List.mem_map.mp hpart
    obtain ⟨r, v, hwanted, -, hof, heq⟩ := hv.exists_row_of_scored hg hadmitted hscored
    exact ⟨r, v, hwanted, hof, heq⟩
  let found : List VectorMatch := scored.map fun p => ⟨p.1, D.mul p.2 p.2⟩
  have hids : found.map VectorMatch.rowId = scored.map Prod.fst := by
    rw [List.map_map]
    rfl
  have hfound : ∀ m ∈ found, ∃ r v, s.Wanted cat request.filter r ∧
      vectorOf s.schema r = some ⟨storedRowId r, v⟩ ∧ m = ⟨storedRowId r,
        D.mul (D.l2 request.query v) (D.l2 request.query v)⟩ := by
    intro m hm
    obtain ⟨p, hp, rfl⟩ := List.mem_map.mp hm
    obtain ⟨r, v, hwanted, hof, rfl⟩ := hrow p hp
    exact ⟨r, v, hwanted, hof, rfl⟩
  have hlength : found.length = min request.k (s.found D request admitted).length := by
    have hnodup := hsearch.nodup_foundRows D request.k efSearchDefault admitted fun _ => true
    rw [List.filter_true] at hnodup
    rw [List.length_map, hkept.length_eq, hnodup.dedup, List.length_map]
    rfl
  obtain ⟨hits, hhits, hof⟩ := hv.vectorHits hs hq hreq hread
    (show found.length ≤ request.k by omega)
    (fun m hm => by
      obtain ⟨r, v, hwanted, -, rfl⟩ := hfound m hm
      exact ⟨r, hwanted.1, rfl⟩)
    (fun m hm => by
      obtain ⟨r, v, hwanted, hvec, rfl⟩ := hfound m hm
      exact hfin r hwanted.1 _ hvec)
    (fun m hm => by
      obtain ⟨r, v, -, -, rfl⟩ := hfound m hm
      exact hsquare _)
  have hperm := sortMatches_perm found
  have hhitIds : hits.map VectorHit.rowId = (Snapshot.sortMatches found).map VectorMatch.rowId :=
    map_eq_of_forall₂ (hof.imp fun _ _ h => h.rowId)
  have hnodup : (hits.map VectorHit.rowId).Nodup := by
    rw [hhitIds, (hperm.map _).nodup_iff, hids]
    exact hkept.nodup
  have hcount : hits.length = found.length := by rw [← hof.length_eq, hperm.length_eq]
  refine ⟨admitted, hits, hadmitted, ?_, ⟨by omega, hnodup, fun h hh => ?_, ?_⟩, by omega⟩
  · rw [Snapshot.vectorSearchQuery, Snapshot.vectorSearchWith, hq, ok_bind, hval]
    dsimp only
    rw [hv.vectorMatches_unpruned hs hq hreq, hmatches]
    have hall : (fun _ : Stats => request.filter.all fun _ => true) = fun _ => true := by
      funext
      cases request.filter <;> rfl
    rw [hall, hfan]
    exact congrArg some hhits
  · obtain ⟨m, hm, hhit⟩ := exists_left_of_forall₂ hof hh
    obtain ⟨r, v, hwanted, hvec, rfl⟩ := hfound m (hperm.mem_iff.mp hm)
    obtain ⟨r', hr', hid, hby⟩ := hhit.hydrated
    obtain rfl : r' = r := List.inj_on_of_nodup_map hv.rowIds_nodup (List.mem_of_mem_filter hr')
      (List.mem_of_mem_filter hwanted.1) hid
    have hrowId : h.rowId = storedRowId r' := hhit.rowId
    refine ⟨r', hr', hrowId.symm, hwanted.2, ⟨v, ?_, hhit.distance⟩, hby⟩
    rw [hrowId]
    exact hvec
  · refine List.Pairwise.imp₂ (fun a b hab hne => ?_) (hits_pairwise hof)
      (List.pairwise_map.mp hnodup)
    rw [not_ranksBefore_iff] at hab
    dsimp only at hab
    omega

/-! ### Every reachable state -/

/-- A vector search on a version in use returns hits that are live rows with a vector,
satisfy the filter, carry the distance of their own vector and are in order; a hit that
was to be hydrated shows what a scan shows of the row. -/
theorem vector_search_results {sys : System} (hreach : (system P).Reachable sys) {b : Snapshot}
    (hb : b ∈ sys.dataset.current :: sys.held) {whole : RecordBatch}
    (hscan : b.scan P sys.dataset.store (fullSchema b.schema) = .ok whole)
    (hq : b.querySchema = .ok q) (hval : q.validateVectorSearch request = .ok hydration)
    (hsquare : ∀ d, Binary.lt (D.mul d d) (Binary.zero 8 23) = false)
    (hfin : FiniteDistances D b whole.rows request.query)
    (hread : ∀ names ∈ hydration, Readable b.schema names) :
    ∃ hits, b.vectorSearchQuery P D sys.dataset.store request =
        some (.ok ⟨request.k, hydration, hits⟩) ∧
      HitsValid D b whole.rows request hydration hits := by
  obtain ⟨cat, hv, hstored⟩ := (System.inv_of_reachable hreach).snapshot_valid hb
  obtain ⟨whole', hwhole, hrows⟩ := hv.scan_full hstored
  obtain rfl : whole' = whole := Except.ok.inj (hwhole.symm.trans hscan)
  rw [hrows] at hfin ⊢
  obtain ⟨_, hits, -, hsearch, hhits, -⟩ :=
    hv.vectorSearchQuery hstored hq hval hsquare hfin hread
  exact ⟨hits, hsearch, hhits⟩

/-- All vectors at distance zero. -/
def flatDistances : Distances where
  l2 _ _ := Binary.zero 8 23
  mul _ _ := Binary.zero 8 23
  heaps := listHeaps Binary.lt

/-- The nearest row to the origin, with all its columns. -/
def nearestToOrigin : VectorSearchRequest :=
  ⟨vectorColumn, [Binary.zero 8 23], 1, none, .projection .all⟩

theorem vector_search_results_origin :
    ∃ s whole hits, plainRun vectorSchema (insertLabels originBatch) = some s ∧
      s.dataset.current.vectorSearchQuery plainPlatform flatDistances s.dataset.store
        nearestToOrigin = some (.ok ⟨1, some [vectorColumn], hits⟩) ∧
      HitsValid flatDistances s.dataset.current whole nearestToOrigin (some [vectorColumn])
        hits := by
  have hrun : (plainRun vectorSchema (insertLabels originBatch)).map (fun s =>
      (s.dataset.current.schema, (s.dataset.current.querySchema.toOption.bind fun q =>
          (q.validateVectorSearch nearestToOrigin).toOption),
        (s.dataset.current.scan plainPlatform s.dataset.store
          (fullSchema s.dataset.current.schema)).isOk)) =
      some (vectorSchema, some (some [vectorColumn]), true) := by
    decide +kernel
  obtain ⟨s, hs, hout⟩ := Option.map_eq_some_iff.mp hrun
  obtain ⟨hschema, hout⟩ := Prod.mk.inj hout
  obtain ⟨hval, hscan⟩ := Prod.mk.inj hout
  obtain ⟨q, hq, hval⟩ := Option.bind_eq_some_iff.mp hval
  obtain ⟨whole, hwhole⟩ := exists_ok_of_isOk hscan
  have hsquare : Binary.lt (Binary.zero 8 23) (Binary.zero 8 23) = false := by decide
  have hfinite : (Binary.zero 8 23).isFinite = true := by decide
  have hread : ∀ names ∈ some [vectorColumn], Readable s.dataset.current.schema names := by
    rw [hschema]
    rintro _ ⟨⟩
    decide
  obtain ⟨hits, hsearch, hhits⟩ := vector_search_results (D := flatDistances)
    (reachable_runOn hs) List.mem_cons_self hwhole (toOption_eq_some.mp hq)
    (toOption_eq_some.mp hval) (fun _ => hsquare) (fun _ _ _ _ => hfinite) hread
  exact ⟨s, whole.rows, hits, hs, hsearch, hhits⟩

/-- A vector column with a nullable child passes validation and is searched, but the
hydration of a hit fails. -/
theorem vector_search_refuses_nullable_child :
    ∃ s e, plainRun looseSchema
        (insertLabels (batchOf looseSchema [[.vector [Binary.zero 8 23]]])) = some s ∧
      (∃ q, s.dataset.current.querySchema = .ok q ∧
        q.validateVectorSearch nearestToOrigin = .ok (some [vectorColumn])) ∧
      s.dataset.current.vectorSearchQuery plainPlatform flatDistances s.dataset.store
        nearestToOrigin = some (.error e) := by
  have hrun : (plainRun looseSchema
      (insertLabels (batchOf looseSchema [[.vector [Binary.zero 8 23]]]))).bind (fun s =>
        (s.dataset.current.vectorSearchQuery plainPlatform flatDistances s.dataset.store
          nearestToOrigin).map fun result =>
            ((s.dataset.current.querySchema.toOption.bind fun q =>
              (q.validateVectorSearch nearestToOrigin).toOption), result.isOk)) =
      some (some (some [vectorColumn]), false) := by
    decide +kernel
  obtain ⟨s, hs, hmap⟩ := Option.bind_eq_some_iff.mp hrun
  obtain ⟨result, hresult, hout⟩ := Option.map_eq_some_iff.mp hmap
  obtain ⟨hval, hfails⟩ := Prod.mk.inj hout
  obtain ⟨q, hq, hval⟩ := Option.bind_eq_some_iff.mp hval
  obtain ⟨e, rfl⟩ := exists_error_of_isOk_eq_false hfails
  exact ⟨s, e, hs, ⟨q, toOption_eq_some.mp hq, toOption_eq_some.mp hval⟩, hresult⟩

/-- In every reachable state a zone map that rejects a filter belongs to a segment
without a live row that satisfies it, and a vector search returns what it would return
if it read every segment. -/
theorem zone_maps_never_hide_rows {sys : System} (hreach : (system P).Reachable sys)
    {b : Snapshot} (hb : b ∈ sys.dataset.current :: sys.held) :
    ∃ whole, b.scan P sys.dataset.store (fullSchema b.schema) = .ok whole ∧
      (∀ part ∈ b.index, ∀ e, zoneMapPermits e part.2 = false →
        ∀ r ∈ whole.rows, storedRowId r ∈ part.1.rowIds →
          selects (fullSchema b.schema) (some e) r = false) ∧
      ∀ D request, b.vectorSearchQuery P D sys.dataset.store request =
        b.vectorSearchWith P D sys.dataset.store request fun _ _ => true := by
  obtain ⟨cat, hv, hstored⟩ := (System.inv_of_reachable hreach).snapshot_valid hb
  obtain ⟨whole, hwhole, hrows⟩ := hv.scan_full hstored
  refine ⟨whole, hwhole, fun part hpart e hrejects r hr hindexed => ?_, fun D request => ?_⟩
  · rw [hv.index_eq] at hpart
    obtain ⟨g, hg, rfl⟩ := List.mem_map.mp hpart
    rw [hrows] at hr
    by_contra hsel
    have hmem : r ∈ cat.indexedRows g.2 :=
      List.mem_filter.mpr ⟨List.mem_of_mem_filter hr, by simpa using hindexed⟩
    have hpermits := hv.zoneMapPermits hg hmem (by simpa using hsel)
    rw [hrejects] at hpermits
    cases hpermits
  · rw [Snapshot.vectorSearchQuery, Snapshot.vectorSearchWith, Snapshot.vectorSearchWith]
    cases hq : b.querySchema with
    | error e => rfl
    | ok q =>
      rw [ok_bind]
      cases hval : q.validateVectorSearch request with
      | error e => rfl
      | ok hydration =>
        dsimp only
        rw [hv.vectorMatches_unpruned hstored hq (validateVectorSearch_eq_ok hval)]

/-- A table of a number and a vector. -/
def pointSchema : Schema :=
  ⟨[Field.new "id" .int64 false, Field.new vectorColumn (.fixedSizeList .float32 false 1) true], []⟩

/-- Two commits of one point each. -/
def twoPoints : List Label :=
  insertLabels (batchOf pointSchema [[.int64 10, .vector [Binary.zero 8 23]]]) ++
    [.begin, .insert 1 (batchOf pointSchema [[.int64 30, .vector [Binary.zero 8 23]]])] ++
    commitLabels 1 2

theorem zone_maps_never_hide_rows_twoPoints :
    ∃ s, plainRun pointSchema twoPoints = some s ∧
      s.dataset.current.index.map (fun part => zoneMapPermits aboveFilter part.2) =
        [false, true] ∧
      s.dataset.current.vectorSearchQuery plainPlatform flatDistances s.dataset.store
          ⟨vectorColumn, [Binary.zero 8 23], 2, some aboveFilter, .notRequested⟩ =
        s.dataset.current.vectorSearchWith plainPlatform flatDistances s.dataset.store
          ⟨vectorColumn, [Binary.zero 8 23], 2, some aboveFilter, .notRequested⟩
          fun _ _ => true := by
  have hrun : (plainRun pointSchema twoPoints).map (fun s =>
      s.dataset.current.index.map fun part => zoneMapPermits aboveFilter part.2) =
      some [false, true] := by
    decide +kernel
  obtain ⟨s, hs, hout⟩ := Option.map_eq_some_iff.mp hrun
  obtain ⟨-, -, -, hsearch⟩ :=
    zone_maps_never_hide_rows (reachable_runOn hs) List.mem_cons_self
  exact ⟨s, hs, hout, hsearch _ _⟩

/-- All segments of a published manifest have one dimension. Recovery finds nothing to
refuse in them, and a search for a vector of this dimension does not fail. -/
theorem one_vector_dimension {sys : System} (hreach : (system P).Reachable sys)
    {g : Publication} (hg : g ∈ sys.history) :
    ∃ n, (∀ entry ∈ g.snapshot.manifest.segments, entry.dimension = n) ∧
      (∃ owned, (∀ i, i ∈ owned ↔ g.snapshot.ownsRow i = true) ∧
        loadSegments g.store g.snapshot.manifest owned = .ok g.snapshot.index) ∧
      ∀ (D : Distances) (query : Vector) k ef filter shouldScan, query.length = n →
        ∃ found, fanOut D query k ef filter shouldScan g.snapshot.index = some (.ok found) := by
  obtain ⟨cat, hv, hstored⟩ := (System.inv_of_reachable hreach).recorded.valid_of_mem hg
  have hn : ∃ n, ∀ e ∈ cat.segments, e.1.dimension = n := by
    cases hsegments : cat.segments with
    | nil => exact ⟨0, nofun⟩
    | cons e rest =>
      refine ⟨e.1.dimension, fun e' he' => hv.dimension_eq e' ?_ e ?_⟩ <;> rw [hsegments]
      · exact he'
      · exact List.mem_cons_self
  obtain ⟨n, hn⟩ := hn
  refine ⟨n, fun entry hentry => ?_, ⟨cat.rowIds, fun i => hv.ownsRow_iff.symm,
    hv.loadSegments hstored⟩, fun D query k ef filter shouldScan hlen => ?_⟩
  · rw [hv.segments_eq] at hentry
    obtain ⟨e, he, rfl⟩ := List.mem_map.mp hentry
    exact hn e he
  · have hsearch : Searchable query g.snapshot.index := hv.searchable_of_dimension fun e he => by
      rw [(hv.segmentValid e he).dimension, hn e he, hlen]
    obtain ⟨scored, hfan, -⟩ := hsearch.fanOut_spec D k ef filter shouldScan
    exact ⟨_, hfan⟩

/-- The second of two vectors that were prepared at the same time. -/
theorem one_vector_dimension_twoVectors :
    ∃ s g n, plainRun vectorSchema (twoVectors 0 1) = some s ∧ g ∈ s.history ∧
      g.snapshot.manifest.segments.length = 2 ∧
      ∀ entry ∈ g.snapshot.manifest.segments, entry.dimension = n := by
  have hrun : (plainRun vectorSchema (twoVectors 0 1)).bind (fun s => (s.history[2]?).map fun g =>
      g.snapshot.manifest.segments.length) = some 2 := by
    decide +kernel
  obtain ⟨s, hs, hmap⟩ := Option.bind_eq_some_iff.mp hrun
  obtain ⟨g, hg, hout⟩ := Option.map_eq_some_iff.mp hmap
  obtain ⟨n, hn, -⟩ := one_vector_dimension (reachable_runOn hs) (List.mem_of_getElem? hg)
  exact ⟨s, g, n, hs, List.mem_of_getElem? hg, hout, hn⟩

end StrataDB.Txn
