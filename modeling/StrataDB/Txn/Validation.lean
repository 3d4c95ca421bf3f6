import StrataDB.Txn.Compactable
import StrataDB.Txn.ScanQuery

/-! What the checks of recovery guarantee, whoever wrote the objects. Nothing is assumed
about the store: a manifest that all validators accept has files with disjoint row ids,
exactly those its ranges name, tombstones and vectors of owned rows, and one dimension.
The allocation counter is not among the things they compare with the files. -/

namespace StrataDB.Txn

open Lib Arrow Index Storage

variable {P : Platform} {store : Store} {m : Manifest} {logical : Schema} {owned : List ℕ}

/-- The row ids of a batch, read by the name of their column. -/
def rowIdsOf (batch : RecordBatch) : List ℕ :=
  ((batch.schema.indexOf rowIdColumn).map fun i => (batch.column i).map Cell.toRowId).getD []

/-- The catalog entry of a file with these row ids. -/
structure Describes (entry : DataFileEntry) (ids : List ℕ) : Prop where
  rowCount : ids.length = entry.rowCount
  empty : entry.rowIdRange = none → ids = []
  range : ∀ first last, entry.rowIdRange = some (first, last) →
    first ≤ last ∧ last < u64Bound ∧ entry.rowCount = last - first + 1 ∧
      ids = List.range' first entry.rowCount

variable {entry : DataFileEntry} {ids r : List ℕ} {i : ℕ} {seen : List ObjectName}
  {entries : List DataFileEntry}

theorem Describes.covers_iff (h : Describes entry ids) :
    Snapshot.coversRow entry i = true ↔ i ∈ ids := by
  unfold Snapshot.coversRow
  split
  · rename_i first last hrange
    obtain ⟨hle, -, hcount, hids⟩ := h.range first last hrange
    rw [hids, List.mem_range'_1, Bool.and_eq_true, decide_eq_true_eq, decide_eq_true_eq]
    omega
  · rename_i hrange
    rw [h.empty hrange]
    simp

/-! ### Data files -/

theorem checkRowIds_none {file : ObjectName} {offset : ℕ} :
    checkRowIds m file none offset owned ids = .ok r ↔ ids = [] ∧ r = owned := by
  cases ids with
  | nil => simp [checkRowIds, eq_comm]
  | cons id ids => simp [checkRowIds, orElse]

theorem validateDataFileRowIds_eq_ok {batch : RecordBatch} {range : Option (ℕ × ℕ)}
    (h : validateDataFileRowIds m entry batch range owned = .ok r) :
    (rowIdsOf batch).length = batch.numRows ∧
      checkRowIds m entry.name range 0 owned (rowIdsOf batch) = .ok r := by
  simp only [validateDataFileRowIds, typedColumn, bind_eq_ok, orElse_eq_ok, ensure_eq_ok,
    pure_eq_ok, exists_const] at h
  obtain ⟨cells, ⟨index, hindex, -, rfl⟩, -, hcheck⟩ := h
  rw [rowIdsOf, hindex]
  exact ⟨by simp [RecordBatch.column, RecordBatch.numRows], hcheck⟩

theorem catalogRowIdRange_eq_ok {range : Option (ℕ × ℕ)}
    (h : catalogRowIdRange m entry = .ok range) :
    range = entry.rowIdRange ∧
      ((entry.rowCount = 0 ∧ range = none) ∨ ∃ first last, range = some (first, last) ∧
        entry.rowCount ≠ 0 ∧ last = first + (entry.rowCount - 1) ∧ last < u64Bound) := by
  unfold catalogRowIdRange at h
  split at h
  · rename_i hcount
    simp only [bind_eq_ok, ensure_eq_ok, exists_const, pure_eq_ok] at h
    obtain ⟨hnone, rfl⟩ := h
    exact ⟨hnone.symm, .inl ⟨hcount, rfl⟩⟩
  · rename_i hcount
    simp only [bind_eq_ok, orElse_eq_ok, ensure_eq_ok, exists_const, pure_eq_ok] at h
    obtain ⟨⟨first, last⟩, hrange, hlt, hlast, rfl⟩ := h
    simp only at hlast hlt
    exact ⟨hrange.symm, .inr ⟨first, last, rfl, hcount, hlast, by omega⟩⟩

theorem validateDataFile_eq_ok (h : validateDataFile P store m logical entry owned = .ok r) :
    ∃ batch, readBatch store entry.name = .ok batch ∧ Describes entry (rowIdsOf batch) ∧
      (∀ i ∈ rowIdsOf batch, i ∉ owned) ∧ r = owned ++ rowIdsOf batch := by
  simp only [validateDataFile, bind_eq_ok, ensure_eq_ok, exists_const] at h
  obtain ⟨batch, hread, -, -, _, -, hcount, range, hrange, hids⟩ := h
  obtain ⟨hlen, hcheck⟩ := validateDataFileRowIds_eq_ok hids
  rw [hcount] at hlen
  obtain ⟨hentry, hcases⟩ := catalogRowIdRange_eq_ok hrange
  refine ⟨batch, hread, ?_⟩
  rcases hcases with ⟨hzero, rfl⟩ | ⟨first, last, rfl, hpos, hlast, hlt⟩
  · obtain ⟨hnil, rfl⟩ := checkRowIds_none.mp hcheck
    rw [hnil] at hlen ⊢
    refine ⟨⟨hlen, fun _ => rfl, fun first last hsome => ?_⟩, by simp, by simp⟩
    rw [← hentry] at hsome
    cases hsome
  · obtain ⟨hrun, hall, rfl⟩ := checkRowIds_some.mp hcheck
    rw [hlen, Nat.add_zero] at hrun
    refine ⟨⟨hlen, fun hnone => ?_, fun first' last' hsome => ?_⟩, fun i hi => (hall i hi).2, rfl⟩
    · rw [← hentry] at hnone
      cases hnone
    · rw [← hentry] at hsome
      cases hsome
      exact ⟨by omega, hlt, by omega, hrun⟩

theorem validateDataFiles_go_eq_ok
    (h : validateDataFiles.go P store m logical seen owned entries = .ok r) :
    ∃ batches, List.Forall₂ (fun e b => readBatch store e.name = .ok b ∧
        Describes e (rowIdsOf b)) entries batches ∧
      (batches.flatMap rowIdsOf).Nodup ∧ (∀ i ∈ batches.flatMap rowIdsOf, i ∉ owned) ∧
      r = owned ++ batches.flatMap rowIdsOf := by
  induction entries generalizing seen owned with
  | nil =>
    cases h
    exact ⟨[], .nil, by simp, by simp, by simp⟩
  | cons entry entries ih =>
    simp only [validateDataFiles.go, bind_eq_ok, ensure_eq_ok, exists_const] at h
    obtain ⟨-, owned', hfile, hrest⟩ := h
    obtain ⟨batch, hread, hdesc, hnew, rfl⟩ := validateDataFile_eq_ok hfile
    obtain ⟨batches, hall, hnodup, hfree, rfl⟩ := ih hrest
    have hids : (rowIdsOf batch).Nodup := by
      cases hrange : entry.rowIdRange with
      | none => rw [hdesc.empty hrange]; exact List.nodup_nil
      | some p =>
        rw [(hdesc.range p.1 p.2 hrange).2.2.2]
        exact List.nodup_range'
    refine ⟨batch :: batches, .cons ⟨hread, hdesc⟩ hall, ?_, ?_, by simp⟩
    · rw [List.flatMap_cons, List.nodup_append]
      refine ⟨hids, hnodup, fun a ha b hb hab => hfree b hb ?_⟩
      rw [← hab]
      exact List.mem_append_right _ ha
    · rw [List.flatMap_cons, List.forall_mem_append]
      exact ⟨hnew, fun i hi howned => hfree i hi (List.mem_append_left _ howned)⟩

/-- The rows of files their entries describe are those the ranges cover. -/
theorem mem_rowIds_iff {batches : List RecordBatch}
    (h : List.Forall₂
      (fun e b => readBatch store e.name = .ok b ∧ Describes e (rowIdsOf b)) entries batches) :
    i ∈ batches.flatMap rowIdsOf ↔ ∃ e ∈ entries, Snapshot.coversRow e i = true := by
  constructor
  · intro hi
    obtain ⟨b, hb, hib⟩ := List.mem_flatMap.mp hi
    obtain ⟨e, he, -, hd⟩ := exists_left_of_forall₂ h hb
    exact ⟨e, he, hd.covers_iff.mpr hib⟩
  · rintro ⟨e, he, hcov⟩
    obtain ⟨b, hb, -, hd⟩ := exists_right_of_forall₂ h he
    exact List.mem_flatMap.mpr ⟨b, hb, hd.covers_iff.mp hcov⟩

/-! ### Segments -/

theorem loadSegments_go_eq_ok {established : Option ℕ} {vectorRows : List ℕ}
    {entries : List SegmentEntry} {parts : List (SegmentPart Stats)}
    (h : loadSegments.go store owned seen established vectorRows entries = .ok parts) :
    ∃ segments, List.Forall₂ (fun e g => readSegment store e.name = .ok g ∧
        g.dimension = e.dimension ∧ ∀ d ∈ established, e.dimension = d) entries segments ∧
      (∀ g ∈ segments, ∀ g' ∈ segments, g.dimension = g'.dimension) ∧
      (segments.flatMap Segment.rowIds).Nodup ∧
      (∀ i ∈ segments.flatMap Segment.rowIds, i ∈ owned ∧ i ∉ vectorRows) ∧
      parts.map Prod.fst = segments := by
  induction entries generalizing seen established vectorRows parts with
  | nil =>
    cases h
    exact ⟨[], .nil, by simp, by simp, by simp, rfl⟩
  | cons entry entries ih =>
    simp only [loadSegments.go, bind_eq_ok, ensure_eq_ok, exists_const, pure_eq_ok,
      validateSegment] at h
    obtain ⟨-, segment, hread, ⟨-, -, -, hdim, -⟩, hexpected, rows, hrows, parts, hrest, rfl⟩ := h
    obtain ⟨hnodup, hown, rfl⟩ := checkVectorRows_eq_ok.mp hrows
    obtain ⟨segments, hall, hsame, hnodups, hfree, hparts⟩ := ih hrest
    have hest : ∀ d ∈ established, entry.dimension = d := by
      rintro d hd
      rw [hexpected, Option.mem_def.mp hd]
      rfl
    have hhead : ∀ g ∈ segments, g.dimension = segment.dimension := by
      intro g hg
      obtain ⟨e, -, -, hge, he⟩ := exists_left_of_forall₂ hall hg
      rw [hge, hdim, he _ rfl, ← hexpected]
    refine ⟨segment :: segments, .cons ⟨hread, hdim, hest⟩ (hall.imp fun e g he => ?_), ?_, ?_, ?_,
      by rw [List.map_cons, hparts]⟩
    · refine ⟨he.1, he.2.1, fun d hd => ?_⟩
      rw [he.2.2 _ rfl, Option.mem_def.mp hd]
      rfl
    · intro g hg g' hg'
      have hall : ∀ g ∈ segment :: segments, g.dimension = segment.dimension :=
        List.forall_mem_cons.mpr ⟨rfl, hhead⟩
      rw [hall g hg, hall g' hg']
    · rw [List.flatMap_cons, List.nodup_append]
      refine ⟨hnodup, hnodups, fun a ha b hb hab => (hfree b hb).2 ?_⟩
      rw [← hab]
      exact List.mem_append_right _ ha
    · rw [List.flatMap_cons, List.forall_mem_append]
      exact ⟨hown, fun i hi =>
        ⟨(hfree i hi).1, fun hmem => (hfree i hi).2 (List.mem_append_left _ hmem)⟩⟩

/-! ### All three -/

/-- Ranges of two files that share no row do not meet. -/
theorem Describes.ranges_disjoint {a b : DataFileEntry} {as bs : List ℕ} (ha : Describes a as)
    (hb : Describes b bs) (h : as.Disjoint bs) :
    ∀ p ∈ a.rowIdRange, ∀ q ∈ b.rowIdRange, p.2 < q.1 ∨ q.2 < p.1 := by
  rintro ⟨first, last⟩ hp ⟨first', last'⟩ hq
  obtain ⟨hle, -, hcount, rfl⟩ := ha.range first last hp
  obtain ⟨hle', -, hcount', rfl⟩ := hb.range first' last' hq
  by_contra hmeet
  -- the larger of the two first ids is in both files
  have hmem : max first first' ∈ List.range' first a.rowCount :=
    List.mem_range'_1.mpr (by simp only at hmeet; omega)
  have hmem' : max first first' ∈ List.range' first' b.rowCount :=
    List.mem_range'_1.mpr (by simp only at hmeet; omega)
  exact h hmem hmem'

/-- A catalog that every validator accepts. -/
theorem validation_sound (P : Platform) (store : Store) (m : Manifest) (logical : Schema)
    (owned : List ℕ) (parts : List (SegmentPart Stats))
    (hfiles : validateDataFiles P store m logical = .ok owned)
    (htombs : validateTombstones m owned = .ok ())
    (hsegments : loadSegments store m owned = .ok parts) :
    ∃ batches segments,
      List.Forall₂ (fun e b => readBatch store e.name = .ok b) m.dataFiles batches ∧
      List.Forall₂ (fun e g => readSegment store e.name = .ok g) m.segments segments ∧
      parts.map Prod.fst = segments ∧
      -- the owned rows are those of the files, each once and in one file
      owned = batches.flatMap rowIdsOf ∧ owned.Nodup ∧
      (∀ i ∈ owned, ∃! k : ℕ, ∃ b, batches[k]? = some b ∧ i ∈ rowIdsOf b) ∧
      -- and those of the ranges
      (∀ i, i ∈ owned ↔ ∃ e ∈ m.dataFiles, ∃ p ∈ e.rowIdRange, p.1 ≤ i ∧ i ≤ p.2) ∧
      (∀ s : Snapshot, s.manifest = m → ∀ i, s.ownsRow i = true ↔ i ∈ owned) ∧
      m.dataFiles.Pairwise (fun a b =>
        ∀ p ∈ a.rowIdRange, ∀ q ∈ b.rowIdRange, p.2 < q.1 ∨ q.2 < p.1) ∧
      (∀ e ∈ m.dataFiles, e.rowCount ≠ 0 →
        ∃ p ∈ e.rowIdRange, p.1 ≤ p.2 ∧ p.2 - p.1 + 1 = e.rowCount) ∧
      m.tombstones.Nodup ∧ (∀ i ∈ m.tombstones, i ∈ owned) ∧
      -- each vector belongs to an owned row and is in one segment
      (segments.flatMap Segment.rowIds).Nodup ∧
      (∀ i ∈ segments.flatMap Segment.rowIds, i ∈ owned ∧
        ∃! k : ℕ, ∃ g, segments[k]? = some g ∧ i ∈ g.rowIds) ∧
      (∀ g ∈ segments, ∀ g' ∈ segments, g.dimension = g'.dimension) := by
  obtain ⟨batches, hread, hnodup, -, rfl⟩ := validateDataFiles_go_eq_ok hfiles
  obtain ⟨segments, hload, hdim, hvectors, hvecOwned, hparts⟩ := loadSegments_go_eq_ok hsegments
  obtain ⟨hdistinct, htombOwned⟩ := validateTombstones_go.mp htombs
  rw [List.nil_append] at htombOwned hvecOwned ⊢
  have hcover := fun i => mem_rowIds_iff (i := i) hread
  refine ⟨batches, segments, hread.imp fun _ _ h => h.1, hload.imp fun _ _ h => h.1, hparts, rfl,
    hnodup, fun i hi => existsUnique_of_nodup_flatMap hnodup hi, fun i => ?_, ?_, ?_,
    fun e he hcount => ?_, hdistinct, fun i hi => (htombOwned i hi).1, hvectors,
    fun i hi => ⟨(hvecOwned i hi).1, existsUnique_of_nodup_flatMap hvectors hi⟩, hdim⟩
  · rw [hcover]
    refine exists_congr fun e => and_congr_right fun _ => ?_
    cases hrange : e.rowIdRange with
    | none => simp [Snapshot.coversRow, hrange]
    | some p => simp [Snapshot.coversRow, hrange]
  · rintro s rfl i
    rw [hcover]
    exact List.any_eq_true
  · exact pairwise_of_forall₂ hread (List.nodup_flatMap.mp hnodup).2
      fun _ _ _ _ ha hb => ha.2.ranges_disjoint hb.2
  · obtain ⟨b, -, -, hd⟩ := exists_right_of_forall₂ hread he
    cases hrange : e.rowIdRange with
    | none => exact absurd (by rw [← hd.rowCount, hd.empty hrange]; rfl) hcount
    | some p =>
      obtain ⟨hle, -, hcard, -⟩ := hd.range p.1 p.2 hrange
      exact ⟨p, rfl, hle, hcard.symm⟩

/-- Two files with a vector each, one of the rows deleted. -/
theorem validation_sound_deleted :
    ∃ s owned parts,
      plainRun vectorSchema (twoVectors 0 1 ++ [.begin, .delete 2 0] ++ commitDeleteLabels 2 2) =
        some s ∧
      validateDataFiles plainPlatform s.dataset.store s.dataset.current.manifest vectorSchema =
        .ok owned ∧
      validateTombstones s.dataset.current.manifest owned = .ok () ∧
      loadSegments s.dataset.store s.dataset.current.manifest owned = .ok parts ∧
      owned = [0, 1] ∧ s.dataset.current.manifest.tombstones = [0] ∧
      parts.map (fun p => p.1.rowIds) = [[0], [1]] ∧
      ∀ i, s.dataset.current.ownsRow i = true ↔ i ∈ owned := by
  have hrun : ((plainRun vectorSchema
      (twoVectors 0 1 ++ [.begin, .delete 2 0] ++ commitDeleteLabels 2 2)).bind fun s =>
      (validateDataFiles plainPlatform s.dataset.store s.dataset.current.manifest
        vectorSchema).toOption.bind fun owned =>
      (loadSegments s.dataset.store s.dataset.current.manifest owned).toOption.map fun parts =>
        (owned, s.dataset.current.manifest.tombstones, parts.map fun p => p.1.rowIds)) =
      some ([0, 1], [0], [[0], [1]]) := by
    decide +kernel
  obtain ⟨s, hs, h⟩ := Option.bind_eq_some_iff.mp hrun
  obtain ⟨owned, hfiles, h⟩ := Option.bind_eq_some_iff.mp h
  obtain ⟨parts, hload, h⟩ := Option.map_eq_some_iff.mp h
  simp only [Prod.mk.injEq] at h
  obtain ⟨rfl, htomb, hparts⟩ := h
  have htombs : validateTombstones s.dataset.current.manifest [0, 1] = .ok () := by
    unfold validateTombstones
    rw [htomb]
    rfl
  obtain ⟨-, -, -, -, -, -, -, -, -, howns, -⟩ := validation_sound plainPlatform _ _ _ _ _
    (toOption_eq_some.mp hfiles) htombs (toOption_eq_some.mp hload)
  exact ⟨s, _, parts, hs, toOption_eq_some.mp hfiles, htombs, toOption_eq_some.mp hload, rfl,
    htomb, hparts, howns _ rfl⟩

/-! ### The allocation floor -/

/-- A row of a file that the manifest lists. -/
def OwnedRow (store : Store) (m : Manifest) (i : ℕ) : Prop :=
  ∃ e ∈ m.dataFiles, ∃ batch, readBatch store e.name = .ok batch ∧ i ∈ rowIdsOf batch

theorem openDataset_floor {d : Dataset} (h : openDataset P store = .ok d) :
    ∃ durable owned, readCurrent P.format store = .ok (some d.current.manifest) ∧
      readRowIdHighWater store = .ok (some durable) ∧
      d.nextRowId = max d.current.manifest.nextRowId durable ∧
      validateDataFiles P store d.current.manifest d.current.schema = .ok owned := by
  simp only [openDataset, validateCatalog, bind_eq_ok, lift_eq_ok, orElse_eq_ok, ensure_eq_ok,
    exists_const, pure_eq_ok] at h
  obtain ⟨_, hread, m, rfl, _, -, _, hdurable, durable, rfl, -, parts, ⟨owned, hfiles, -⟩, _, -,
    rfl⟩ := h
  exact ⟨durable, owned, hread, hdurable, rfl, hfiles⟩

theorem ownedRow_iff (h : validateDataFiles P store m logical = .ok owned) :
    OwnedRow store m i ↔ ∃ e ∈ m.dataFiles, Snapshot.coversRow e i = true := by
  obtain ⟨batches, hread, -⟩ := validateDataFiles_go_eq_ok h
  refine exists_congr fun e => and_congr_right fun he => ?_
  obtain ⟨b, -, hb, hd⟩ := exists_right_of_forall₂ hread he
  constructor
  · rintro ⟨b', hb', hi⟩
    rw [hb] at hb'
    cases hb'
    exact hd.covers_iff.mpr hi
  · exact fun hi => ⟨b, hb, hd.covers_iff.mp hi⟩

/-- The floor is above a row exactly if the manifest's counter or a record is. -/
theorem lt_floor_iff {durable next : ℕ} (hread : readRowIdHighWater store = .ok (some durable)) :
    i < max next durable ↔
      i < next ∨ ∃ last, (store.get (.reservation last)).isSome ∧ i < last := by
  obtain ⟨hv, hmax⟩ := readRowIdHighWater_eq_ok.mp hread
  obtain ⟨hget, hgreatest⟩ := reservations_max hv hmax.symm
  rw [lt_max_iff]
  refine or_congr_right ⟨fun hi => ⟨durable, by rw [hget]; rfl, hi⟩, ?_⟩
  rintro ⟨last, hlast, hi⟩
  exact hi.trans_le (hgreatest last hlast)

/-- The counter of an opened handle is above the rows it owns exactly if each file's
range ends below the manifest's own counter or below some reservation record. Then no
claim hands out an owned row. -/
theorem allocation_floor_iff (P : Platform) (store : Store) (d : Dataset)
    (h : openDataset P store = .ok d) :
    ((∀ i, OwnedRow store d.current.manifest i → i < d.nextRowId) ↔
      ∀ m, readCurrent P.format store = .ok (some m) →
        ∀ e ∈ m.dataFiles, ∀ p ∈ e.rowIdRange, p.2 < m.nextRowId ∨
          ∃ last, (store.get (.reservation last)).isSome ∧ p.2 < last) ∧
    ((∀ i, OwnedRow store d.current.manifest i → i < d.nextRowId) →
      ∀ count faults range d', claimRowIds count faults d = (.ok range, d') →
        ∀ i, range.base ≤ i → ¬ OwnedRow store d.current.manifest i) := by
  obtain ⟨durable, owned, hread, hdurable, hnext, hfiles⟩ := openDataset_floor h
  obtain ⟨batches, hbatches, -⟩ := validateDataFiles_go_eq_ok hfiles
  refine ⟨⟨fun hall m hm e he p hp => ?_, fun hcond i hi => ?_⟩, ?_⟩
  · rw [hread] at hm
    cases hm
    rw [← lt_floor_iff hdurable, ← hnext]
    obtain ⟨b, -, -, hd⟩ := exists_right_of_forall₂ hbatches he
    refine hall p.2 ((ownedRow_iff hfiles).mpr ⟨e, he, ?_⟩)
    have hle := (hd.range p.1 p.2 hp).1
    rw [Snapshot.coversRow, Option.mem_def.mp hp]
    simpa using hle
  · obtain ⟨e, he, hcov⟩ := (ownedRow_iff hfiles).mp hi
    obtain ⟨p, hp, hle⟩ : ∃ p ∈ e.rowIdRange, i ≤ p.2 := by
      cases hrange : e.rowIdRange with
      | none => simp [Snapshot.coversRow, hrange] at hcov
      | some p =>
        rw [Snapshot.coversRow, hrange] at hcov
        exact ⟨p, rfl, by simpa using (Bool.and_eq_true_iff.mp hcov).2⟩
    have hlt := (lt_floor_iff hdurable).mpr (hcond _ hread e he p hp)
    rw [hnext]
    exact hle.trans_lt hlt
  · rintro hall count faults range d' hclaim i hbase hi
    have hge := ((claimRowIds_spec hclaim).2.range range rfl).1
    exact absurd (hall i hi) (by omega)

/-- One row, with row id 0. -/
def keptBatch : RecordBatch := batchOf (fullSchema idSchema) [[.int64 10, .uint64 0, .int64 1]]

/-- A manifest that lists the row and says that no id has been used. -/
def recycledManifest : Manifest :=
  { Manifest.emptyWithSchema idSchema with
    dataFiles := [{
      name := .rowFile 0 0
      byteLen := plainKernels.ipcByteLen keptBatch
      crc32c := plainKernels.ipcCrc32c keptBatch
      rowCount := 1
      rowIdRange := some (0, 0)
      stats := ∅ }]
    nextAttemptId := 1 }

def recycledStore : Store :=
  (((∅ : Store).insert (.reservation 0) (.reservation 0)).insert (.manifest 0)
    (.manifest recycledManifest)).insert (.data (.rowFile 0 0)) (.rows keptBatch)

/-- The store opens with floor 0, and the first commit publishes row 0 once more. -/
theorem allocation_floor_recycled :
    ∃ d s, openDataset plainPlatform recycledStore = .ok d ∧ d.nextRowId = 0 ∧
      OwnedRow recycledStore d.current.manifest 0 ∧
      (system plainPlatform).run (System.created d) (insertLabels (idBatch [20])) = some s ∧
      s.dataset.current.manifest.dataFiles.map DataFileEntry.rowIdRange =
        [some (0, 0), some (0, 0)] := by
  have hrun : ((openDataset plainPlatform recycledStore).toOption.bind fun d =>
      ((system plainPlatform).run (System.created d) (insertLabels (idBatch [20]))).map fun s =>
        (d.nextRowId, d.current.manifest,
          s.dataset.current.manifest.dataFiles.map DataFileEntry.rowIdRange)) =
      some (0, recycledManifest, [some (0, 0), some (0, 0)]) := by
    decide +kernel
  obtain ⟨d, hd, h⟩ := Option.bind_eq_some_iff.mp hrun
  obtain ⟨s, hs, h⟩ := Option.map_eq_some_iff.mp h
  simp only [Prod.mk.injEq] at h
  obtain ⟨hnext, hm, hranges⟩ := h
  refine ⟨d, s, toOption_eq_some.mp hd, hnext, ?_, hs, hranges⟩
  rw [hm]
  exact ⟨_, List.mem_singleton_self _, keptBatch, rfl, by decide +kernel⟩

/-- A dataset the code itself wrote meets the condition. -/
theorem allocation_floor_iff_committed :
    ∃ s d, plainRun idSchema (insertLabels (idBatch [10, 20])) = some s ∧
      openDataset plainPlatform s.dataset.store = .ok d ∧
      d.current.manifest.dataFiles.map DataFileEntry.rowIdRange = [some (0, 1)] ∧
      ∀ i, OwnedRow s.dataset.store d.current.manifest i → i < d.nextRowId := by
  have hrun : ((plainRun idSchema (insertLabels (idBatch [10, 20]))).bind fun s =>
      (openDataset plainPlatform s.dataset.store).toOption.map fun d =>
        (d.current.manifest.dataFiles.map DataFileEntry.rowIdRange,
          decide (d.current.manifest.nextRowId = 2))) =
      some ([some (0, 1)], true) := by
    decide +kernel
  obtain ⟨s, hs, h⟩ := Option.bind_eq_some_iff.mp hrun
  obtain ⟨d, hd, h⟩ := Option.map_eq_some_iff.mp h
  simp only [Prod.mk.injEq, decide_eq_true_eq] at h
  obtain ⟨hranges, hnext⟩ := h
  have hopen := toOption_eq_some.mp hd
  obtain ⟨_, _, hread, -⟩ := openDataset_floor hopen
  refine ⟨s, d, hs, hopen, hranges, (allocation_floor_iff plainPlatform _ d hopen).1.mpr ?_⟩
  intro m hm e he p hp
  rw [hread] at hm
  cases hm
  have hmem : e.rowIdRange ∈ d.current.manifest.dataFiles.map DataFileEntry.rowIdRange :=
    List.mem_map_of_mem he
  rw [hranges, List.mem_singleton, Option.mem_def.mp hp] at hmem
  cases hmem
  exact .inl (by rw [hnext]; decide)

end StrataDB.Txn
