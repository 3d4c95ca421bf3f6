import StrataDB.Txn.Preserving
import StrataDB.Txn.VectorResults

/-! How many hits a vector search returns. The beam of every segment is 32 rows wide and
may stop at 31, so up to 31 rows of every connected segment are found; a search for more
need not find them. -/

namespace StrataDB.Txn

open Lib Arrow Index Storage Query

variable {P : Platform} {D : Distances} {s : Snapshot} {cat : Catalog} {store : Store}
  {q : DatasetSchema} {request : VectorSearchRequest} {hydration : Option (List String)}

/-- The results at which a saturated beam may stop. -/
def fillLimit : ℕ := (saturationThresholdPercent * efSearchDefault + 99) / 100

example : fillLimit = 31 := by decide

/-- The visible rows of a segment. -/
def Snapshot.visibleRows (s : Snapshot) (part : SegmentPart Stats) : List ℕ :=
  part.1.rowIds.filter s.isVisible

/-- Every segment is connected, and `k` is not above what the beams hold together, unless
they hold all there is. -/
structure Snapshot.Fillable (s : Snapshot) (k : ℕ) : Prop where
  connected : ∀ part ∈ s.index, part.1.Connected
  room : k ≤ (s.index.map fun part => min fillLimit (s.visibleRows part).length).sum ∨
    ∀ part ∈ s.index, (s.visibleRows part).length ≤ fillLimit

section
variable {α : Type} {k limit : ℕ} {found live : α → ℕ} {parts : List α}

/-- Parts that each find what they have, up to `k` or a limit, find as much together. -/
theorem min_sum_le (hge : ∀ p ∈ parts, min k (min limit (live p)) ≤ found p) :
    min k (parts.map fun p => min limit (live p)).sum ≤ (parts.map found).sum := by
  induction parts with
  | nil => simp
  | cons p parts ih =>
    rw [List.forall_mem_cons] at hge
    have hrest := ih hge.2
    rw [List.map_cons, List.map_cons, List.sum_cons, List.sum_cons]
    omega

theorem min_limit_sum_le (limit : ℕ) (live : α → ℕ) (parts : List α) :
    min limit (parts.map live).sum ≤ (parts.map fun p => min limit (live p)).sum := by
  induction parts with
  | nil => simp
  | cons p parts ih =>
    rw [List.map_cons, List.map_cons, List.sum_cons, List.sum_cons]
    omega

end

/-- The indexed ids are the ids of the rows with a vector. -/
theorem Snapshot.Valid.vectorIds_eq (hv : s.Valid P cat) :
    cat.vectorIds = (cat.rows.filterMap (vectorOf s.schema)).map VectorInsert.rowId := by
  rw [← hv.vectors_eq, Catalog.vectors, List.map_flatMap, Catalog.vectorIds]
  refine List.flatMap_congr fun g hg => ?_
  have hlen := (hv.segmentValid g hg).vectors_length
  refine List.ext_getElem (by simp [hlen]) fun i _ _ => ?_
  simp

theorem rowId_of_vectorOf {schema : Schema} {r : Row} {v : VectorInsert}
    (h : vectorOf schema r = some v) : v.rowId = storedRowId r := by
  simp only [vectorOf, Option.bind_eq_some_iff, Option.map_eq_some_iff] at h
  obtain ⟨_, -, _, -, rfl⟩ := h
  rfl

/-- The visible rows of all segments are the live rows with a vector. -/
theorem Snapshot.Valid.sum_visibleRows (hv : s.Valid P cat) :
    (s.index.map fun part => (s.visibleRows part).length).sum =
      ((cat.liveRows s.tombstones).filterMap (vectorOf s.schema)).length := by
  have hsum : (s.index.map fun part => (s.visibleRows part).length).sum =
      (cat.vectorIds.filter s.isVisible).length := by
    rw [hv.index_eq, Catalog.parts, List.map_map, Catalog.vectorIds, List.filter_flatMap,
      List.length_flatMap]
    rfl
  rw [hsum, hv.vectorIds_eq, filter_map_filterMap fun r v => rowId_of_vectorOf, List.length_map]
  simp only [Snapshot.isVisible, Catalog.liveRows]
  congr 2
  refine List.filter_congr fun r _ => ?_
  simp

/-- A valid search without a filter returns no more hits than `k` and the live rows allow,
and no fewer than connected segments hold. -/
theorem Snapshot.Valid.vectorSearchQuery_fills (hv : s.Valid P cat) (hs : cat.StoredIn store)
    (hq : s.querySchema = .ok q) (hval : q.validateVectorSearch request = .ok hydration)
    (hnone : request.filter = none)
    (hsquare : ∀ d, Binary.lt (D.mul d d) (Binary.zero 8 23) = false)
    (hfin : FiniteDistances D s (cat.liveRows s.tombstones) request.query)
    (hread : ∀ names ∈ hydration, Readable s.schema names)
    (hconnected : ∀ part ∈ s.index, part.1.Connected) :
    ∃ hits, s.vectorSearchQuery P D store request = some (.ok ⟨request.k, hydration, hits⟩) ∧
      hits.length ≤ min request.k
        ((cat.liveRows s.tombstones).filterMap (vectorOf s.schema)).length ∧
      min request.k (s.index.map fun part => min fillLimit (s.visibleRows part).length).sum ≤
        hits.length := by
  obtain ⟨admitted, hits, hadmitted, hsearch, -, hcount⟩ :=
    hv.vectorSearchQuery hs hq hval hsquare hfin hread
  refine ⟨hits, hsearch, ?_⟩
  have hsearchable := hv.searchable hq (validateVectorSearch_eq_ok hval).column
  -- without a filter the rows admitted are the visible ones
  have hvisible : ∀ part ∈ s.index, part.1.rowIds.filter admitted = s.visibleRows part := by
    intro part hpart
    refine List.filter_congr fun rowId hrow => ?_
    rw [hv.index_eq] at hpart
    obtain ⟨g, hg, rfl⟩ := List.mem_map.mp hpart
    obtain ⟨r, hr, rfl⟩ := List.mem_map.mp
      (hv.vectorIds_owned rowId (List.mem_flatMap.mpr ⟨g, hg, hrow⟩))
    rw [Bool.eq_iff_iff, hadmitted r hr, hnone]
    simp [Snapshot.Wanted, selects, Snapshot.isVisible, Catalog.liveRows, hr]
  rw [hcount, ← hv.sum_visibleRows, Snapshot.found, List.length_flatMap]
  refine ⟨min_le_min_left _ (List.sum_le_sum fun part hpart => ?_),
    le_min (min_le_left _ _) (min_sum_le fun part hpart => ?_)⟩
  · rw [← hvisible part hpart]
    exact hsearchable.length_foundRows_le D request.k efSearchDefault admitted hpart
  · obtain ⟨-, -, -, hcomplete, -⟩ :=
      hsearchable.part_spec D request.k efSearchDefault admitted hpart
    rw [← hvisible part hpart]
    refine hcomplete (hconnected part hpart) ?_
    rw [hv.index_eq] at hpart
    obtain ⟨g, hg, rfl⟩ := List.mem_map.mp hpart
    exact (hv.segmentValid g hg).encodable

/-- No search returns more hits than the beams of its segments are wide. -/
theorem Snapshot.Valid.length_found_le (hv : s.Valid P cat) (hq : s.querySchema = .ok q)
    (hval : q.validateVectorSearch request = .ok hydration) (admitted : ℕ → Bool) :
    (s.found D request admitted).length ≤ efSearchDefault * s.index.length := by
  have hsearchable := hv.searchable hq (validateVectorSearch_eq_ok hval).column
  rw [Snapshot.found, List.length_flatMap, Nat.mul_comm, ← List.length_map (f := fun part =>
    (foundRows D request.query request.k efSearchDefault admitted part.1).length)]
  refine List.sum_le_card_nsmul _ _ fun n hn => ?_
  obtain ⟨part, hpart, rfl⟩ := List.mem_map.mp hn
  exact (hsearchable.part_spec D request.k efSearchDefault admitted hpart).2.2.2.2

theorem Snapshot.Fillable.min_le {k : ℕ} (h : s.Fillable k) :
    min k (s.index.map fun part => (s.visibleRows part).length).sum ≤
      min k (s.index.map fun part => min fillLimit (s.visibleRows part).length).sum := by
  rcases h.room with hk | hsmall
  · rw [min_eq_left hk]
    exact min_le_left _ _
  · rw [List.map_congr_left fun part hpart => min_eq_right (hsmall part hpart)]

/-! ### Every reachable state -/

/-- A search without a filter for a valid request fills `k` as far as there are live rows
with a vector. After a compaction into a connected segment it returns no more, and no
fewer up to what the one beam holds. -/
theorem vector_search_fills {sys : System} (hreach : (system P).Reachable sys) {b : Snapshot}
    (hb : b ∈ sys.dataset.current :: sys.held) {whole : RecordBatch}
    (hscan : b.scan P sys.dataset.store (fullSchema b.schema) = .ok whole)
    (hq : b.querySchema = .ok q) (hval : q.validateVectorSearch request = .ok hydration)
    (hnone : request.filter = none)
    (hsquare : ∀ d, Binary.lt (D.mul d d) (Binary.zero 8 23) = false)
    (hfin : FiniteDistances D b whole.rows request.query)
    (hread : ∀ names ∈ hydration, Readable b.schema names) (hfill : b.Fillable request.k) :
    ∃ hits, b.vectorSearchQuery P D sys.dataset.store request =
        some (.ok ⟨request.k, hydration, hits⟩) ∧
      hits.length = min request.k (whole.rows.filterMap (vectorOf b.schema)).length ∧
      ∀ clock faults sys', b = sys.dataset.current →
        (system P).step sys (.compact clock faults) = some sys' →
        sys'.dataset.current.version ≠ b.version →
        (∀ part ∈ sys'.dataset.current.index, part.1.Connected) →
        ∃ hits', sys'.dataset.current.vectorSearchQuery P D sys'.dataset.store request =
            some (.ok ⟨request.k, hydration, hits'⟩) ∧ hits'.length ≤ hits.length ∧
          min fillLimit hits.length ≤ hits'.length := by
  have hinv := System.inv_of_reachable hreach
  obtain ⟨cat, hv, hstored⟩ := hinv.snapshot_valid hb
  obtain ⟨whole', hwhole, hrows⟩ := hv.scan_full hstored
  obtain rfl : whole' = whole := Except.ok.inj (hwhole.symm.trans hscan)
  obtain ⟨hits, hsearch, hle, hge⟩ := hv.vectorSearchQuery_fills hstored hq hval hnone hsquare
    (hrows ▸ hfin) hread hfill.connected
  have hcount : hits.length = min request.k (whole'.rows.filterMap (vectorOf b.schema)).length := by
    rw [hrows]
    refine le_antisymm hle ?_
    rw [← hv.sum_visibleRows]
    exact hfill.min_le.trans hge
  refine ⟨hits, hsearch, hcount, ?_⟩
  rintro clock faults sys' rfl hstep hpub hconnected
  rcases hinv.compact_cases hstep with ⟨hschema, live, hlive⟩ | hcurrent
  · -- the version that the compaction publishes shows the same rows
    have hreach' := hreach.step hstep
    obtain ⟨cat', hv', hstored'⟩ :=
      (System.inv_of_reachable hreach').snapshot_valid List.mem_cons_self
    obtain ⟨whole'', hwhole'', hrows'⟩ := hv'.scan_full hstored'
    rw [hschema, hlive.out_rows] at hwhole''
    obtain rfl : live = whole' := Except.ok.inj (hlive.source_rows.symm.trans hscan)
    obtain rfl : live = whole'' := Except.ok.inj hwhole''
    have hq' : sys'.dataset.current.querySchema = .ok q := by
      rw [Snapshot.querySchema, hschema]
      exact hq
    have hfin' : FiniteDistances D sys'.dataset.current
        (cat'.liveRows sys'.dataset.current.tombstones) request.query := by
      rw [← hrows']
      intro r hr v hvec
      rw [hschema] at hvec
      exact hfin r hr v hvec
    obtain ⟨hits', hsearch', hle', hge'⟩ := hv'.vectorSearchQuery_fills hstored' hq' hval hnone
      hsquare hfin' (hschema ▸ hread) hconnected
    have hbeam := min_limit_sum_le fillLimit
      (fun part => (sys'.dataset.current.visibleRows part).length) sys'.dataset.current.index
    rw [hv'.sum_visibleRows, ← hrows', hschema] at hbeam
    rw [← hrows', hschema] at hle'
    refine ⟨hits', hsearch', hle'.trans_eq hcount.symm, ?_⟩
    omega
  · exact absurd (congrArg Snapshot.version hcurrent) hpub

theorem vector_search_fills_origin :
    ∃ s hits, plainRun vectorSchema (insertLabels originBatch) = some s ∧
      s.dataset.current.vectorSearchQuery plainPlatform flatDistances s.dataset.store
        nearestToOrigin = some (.ok ⟨1, some [vectorColumn], hits⟩) ∧ hits.length = 1 := by
  have hrun : (plainRun vectorSchema (insertLabels originBatch)).map (fun s =>
      (s.dataset.current.schema, (s.dataset.current.querySchema.toOption.bind fun q =>
          (q.validateVectorSearch nearestToOrigin).toOption),
        (s.dataset.current.scan plainPlatform s.dataset.store
          (fullSchema s.dataset.current.schema)).toOption.map fun whole =>
            (whole.rows.filterMap (vectorOf vectorSchema)).length,
        s.dataset.current.index.map fun part => part.1.nodeCount)) =
      some (vectorSchema, some (some [vectorColumn]), some 1, [1]) := by
    decide +kernel
  obtain ⟨s, hs, hout⟩ := Option.map_eq_some_iff.mp hrun
  simp only [Prod.mk.injEq] at hout
  obtain ⟨hschema, hval, hscan, hnodes⟩ := hout
  obtain ⟨q, hq, hval⟩ := Option.bind_eq_some_iff.mp hval
  obtain ⟨whole, hwhole, hcount⟩ := Option.map_eq_some_iff.mp hscan
  have hsquare : Binary.lt (Binary.zero 8 23) (Binary.zero 8 23) = false := by decide
  have hfinite : (Binary.zero 8 23).isFinite = true := by decide
  have hread : ∀ names ∈ some [vectorColumn], Readable s.dataset.current.schema names := by
    rw [hschema]
    rintro _ ⟨⟩
    decide
  have hfill : s.dataset.current.Fillable 1 := by
    have hone : ∀ part ∈ s.dataset.current.index, part.1.nodeCount = 1 := fun part hpart =>
      List.mem_singleton.mp (hnodes ▸ List.mem_map.mpr ⟨part, hpart, rfl⟩)
    refine ⟨fun part hpart u hu v hv => ?_, .inr fun part hpart => ?_⟩
    · rw [hone part hpart] at hu hv
      obtain rfl : u = v := by omega
      exact .refl
    · calc (s.dataset.current.visibleRows part).length ≤ part.1.nodeCount :=
            List.length_filter_le ..
        _ = 1 := hone part hpart
        _ ≤ fillLimit := by decide
  obtain ⟨hits, hsearch, hlength, -⟩ := vector_search_fills (D := flatDistances)
    (reachable_runOn hs) List.mem_cons_self (toOption_eq_some.mp hwhole)
    (toOption_eq_some.mp hq) (toOption_eq_some.mp hval) rfl (fun _ => hsquare)
    (fun _ _ _ _ => hfinite) hread hfill
  rw [hschema, hcount] at hlength
  exact ⟨s, hits, hs, hsearch, hlength⟩

/-! ### More rows than the beam is wide -/

/-- Nodes that are all linked to the first one and back. -/
theorem connected_of_star {s : Segment} (h : ∀ i < s.nodeCount, (s.source.level i).isSome ∧
    (i = 0 ∨ 0 ∈ s.source.neighbors i 0 ∧ i ∈ s.source.neighbors 0 0)) : s.Connected := by
  have hlevel : ∀ i < s.nodeCount, ∃ level, s.source.level i = some level ∧ 0 ≤ level :=
    fun i hi => (Option.isSome_iff_exists.mp (h i hi).1).imp fun _ hl => ⟨hl, Nat.zero_le _⟩
  intro u hu v hv
  have hdown : s.source.Reaches 0 u 0 := by
    rcases (h u hu).2 with rfl | ⟨hlink, -⟩
    · exact .refl
    · exact .single ⟨hlevel u hu, hlink⟩
  rcases (h v hv).2 with rfl | ⟨-, hlink⟩
  · exact hdown
  · exact hdown.tail ⟨hlevel 0 (by omega), hlink⟩

/-- One commit of 33 distinct vectors, all of them so small that their squared distances
are rounded to zero. -/
def wideBatch : RecordBatch :=
  batchOf vectorSchema ((List.finRange 33).map fun i : Fin 33 =>
    [.vector [⟨false, i, i.2.trans (by decide)⟩]])

/-- All 33 rows. -/
def allRows : VectorSearchRequest := ⟨vectorColumn, [Binary.zero 8 23], 33, none, .notRequested⟩

theorem wideBatch_run :
    (runOn arrowPlatform vectorSchema (insertLabels wideBatch)).map (fun s =>
      ((s.dataset.current.querySchema.toOption.bind fun q =>
          (q.validateVectorSearch allRows).toOption),
        (s.dataset.current.scan arrowPlatform s.dataset.store
          (fullSchema s.dataset.current.schema)).toOption.map fun whole =>
            (whole.rows.filterMap (vectorOf s.dataset.current.schema)).length,
        s.dataset.current.index.map fun part =>
          decide (∀ i < part.1.nodeCount, (part.1.source.level i).isSome ∧
            (i = 0 ∨ 0 ∈ part.1.source.neighbors i 0 ∧ i ∈ part.1.source.neighbors 0 0)))) =
      some (some none, some 33, [true]) := by
  decide +kernel

/-- All 33 rows are live and their segment is connected, but a search for 33 rows returns
at most the 32 that the beam holds. -/
theorem vector_search_stops_at_beam :
    wideBatch.rows.Nodup ∧
    ∃ s q whole hits, runOn arrowPlatform vectorSchema (insertLabels wideBatch) = some s ∧
      (∀ part ∈ s.dataset.current.index, part.1.Connected) ∧
      s.dataset.current.querySchema = .ok q ∧ q.validateVectorSearch allRows = .ok none ∧
      s.dataset.current.scan arrowPlatform s.dataset.store
        (fullSchema s.dataset.current.schema) = .ok whole ∧
      (whole.rows.filterMap (vectorOf s.dataset.current.schema)).length = 33 ∧
      s.dataset.current.vectorSearchQuery arrowPlatform flatDistances s.dataset.store allRows =
        some (.ok ⟨33, none, hits⟩) ∧ hits.length ≤ 32 := by
  obtain ⟨s, hs, hout⟩ := Option.map_eq_some_iff.mp wideBatch_run
  simp only [Prod.mk.injEq] at hout
  obtain ⟨hval, hscan, hparts⟩ := hout
  obtain ⟨q, hq, hval⟩ := Option.bind_eq_some_iff.mp hval
  obtain ⟨whole, hwhole, hcount⟩ := Option.map_eq_some_iff.mp hscan
  have hq := toOption_eq_some.mp hq
  have hval := toOption_eq_some.mp hval
  have hone : s.dataset.current.index.length = 1 := by
    simpa using congrArg List.length hparts
  have hconnected : ∀ part ∈ s.dataset.current.index, part.1.Connected := by
    intro part hpart
    have hstar : decide (∀ i < part.1.nodeCount, (part.1.source.level i).isSome ∧
        (i = 0 ∨ 0 ∈ part.1.source.neighbors i 0 ∧ i ∈ part.1.source.neighbors 0 0)) ∈ [true] := by
      rw [← hparts]
      exact List.mem_map.mpr ⟨part, hpart, rfl⟩
    exact connected_of_star (of_decide_eq_true (List.mem_singleton.mp hstar))
  have hsquare : Binary.lt (Binary.zero 8 23) (Binary.zero 8 23) = false := by decide
  have hfinite : (Binary.zero 8 23).isFinite = true := by decide
  obtain ⟨cat, hv, hstored⟩ :=
    (System.inv_of_reachable (reachable_runOn hs)).snapshot_valid List.mem_cons_self
  obtain ⟨admitted, hits, -, hsearch, -, hlength⟩ := hv.vectorSearchQuery (D := flatDistances)
    hstored hq hval (fun _ => hsquare) (fun _ _ _ _ => hfinite) nofun
  have hbeam := hv.length_found_le (D := flatDistances) hq hval admitted
  refine ⟨by decide, s, q, whole, hits, hs, hconnected, hq, hval, toOption_eq_some.mp hwhole,
    hcount, hsearch, ?_⟩
  rw [hone] at hbeam
  change _ ≤ 32 at hbeam
  omega

end StrataDB.Txn
