import StrataDB.Txn.Valid

/-! The validators on a valid version. Of all they check, the writers leave one
thing open: whether each row file still carries the metadata of the logical
schema. -/

namespace StrataDB.Txn

open Lib Arrow Index Storage

/-! ### Stored schemas -/

/-- Every row file carries the schema-level metadata of the logical schema. -/
def Catalog.MetadataKept (cat : Catalog) (schema : Schema) : Prop :=
  ∀ f ∈ cat.files, f.2.schema.metadata = schema.metadata

theorem StoresFields.drop_eq {schema : Schema} {stored : List Field}
    (h : StoresFields schema stored) :
    stored.drop schema.fields.length = [rowIdField, timestampField] := by
  obtain ⟨s₁, h₁, _, heq₁⟩ := h.getElem (fullFields_getElem_rowId schema)
  obtain ⟨s₂, h₂, _, heq₂⟩ := h.getElem (fullFields_getElem_timestamp schema)
  rw [heq₁ (by decide)] at h₁
  rw [heq₂ (by decide)] at h₂
  obtain ⟨hlt₁, he₁⟩ := List.getElem?_eq_some_iff.mp h₁
  obtain ⟨hlt₂, he₂⟩ := List.getElem?_eq_some_iff.mp h₂
  rw [List.drop_eq_getElem_cons hlt₁, List.drop_eq_getElem_cons hlt₂, he₁, he₂,
    List.drop_of_length_le (by rw [h.length])]

variable {m : Manifest} {logical physical : Schema} {file : ObjectName} {u : Unit}
  {batch : RecordBatch} {missing mistyped : TxnError} {owned ids r vectorRows : List ℕ}
  {store : Store} {seen : List ObjectName}

theorem validatePhysicalBatchSchema_iff :
    validatePhysicalBatchSchema m logical physical file = .ok u ↔
      physical.metadata = logical.metadata ∧
      physical.fields.length = logical.fields.length + hiddenColumns.length ∧
      (∀ p ∈ physical.fields.zip logical.fields, storedFieldMatches p.1 p.2 = true) ∧
      ∀ p ∈ (physical.fields.drop logical.fields.length).zip [rowIdField, timestampField],
        hiddenFieldMatches p.1 p.2 = true := by
  simp only [validatePhysicalBatchSchema, bind_eq_ok, ensure_eq_ok, forM_eq_ok, exists_const]

theorem validatePhysicalBatchSchema_of_stored (h : StoresFields logical physical.fields) :
    validatePhysicalBatchSchema m logical physical file = .ok u ↔
      physical.metadata = logical.metadata := by
  rw [validatePhysicalBatchSchema_iff]
  refine ⟨fun h => h.1, fun hmeta => ⟨hmeta, h.length, ?_, ?_⟩⟩
  · rintro ⟨s, owned⟩ hp
    obtain ⟨k, hk, hget⟩ := List.mem_iff_getElem.mp hp
    rw [List.getElem_zip, Prod.mk.injEq] at hget
    have hk' : k < logical.fields.length := by
      rw [List.length_zip] at hk
      omega
    obtain ⟨s', hs', hm, _⟩ := h.getElem
      (fullFields_getElem_logical (List.getElem?_eq_getElem hk'))
    rw [List.getElem?_eq_some_iff] at hs'
    obtain ⟨_, hs'⟩ := hs'
    rw [← hget.1, ← hget.2, hs']
    exact hm
  · rw [h.drop_eq]
    decide

/-- A stored schema fails under a logical schema with another number of fields. -/
theorem validatePhysicalBatchSchema_ne_ok {logical' : Schema}
    (h : StoresFields logical physical.fields)
    (hlen : logical'.fields.length ≠ logical.fields.length) :
    validatePhysicalBatchSchema m logical' physical file ≠ .ok u := by
  rw [Ne, validatePhysicalBatchSchema_iff]
  rintro ⟨_, hfields, _⟩
  rw [h.length] at hfields
  have : hiddenColumns.length = 2 := rfl
  omega

/-! ### Row ids -/

theorem typedColumn_rowId {schema : Schema} (hw : WellNamed schema)
    (h : StoresFields schema batch.schema.fields) :
    typedColumn batch rowIdColumn .uint64 missing mistyped =
      .ok (batch.rows.map fun r => .uint64 (storedRowId r)) := by
  have hidx : batch.schema.indexOf rowIdColumn = some schema.fields.length :=
    h.indexOf hw (fullFields_getElem_rowId schema)
  obtain ⟨s, hs, _, heq⟩ := h.getElem (fullFields_getElem_rowId schema)
  have htype : batch.schema.typeAt schema.fields.length = .uint64 := by
    rw [Schema.typeAt, hs, heq (by decide)]
    rfl
  unfold typedColumn
  simp only [hidx, orElse, ok_bind, htype, ensure, if_true]
  refine congrArg Except.ok (List.map_congr_left fun r hr => ?_)
  exact (cell_rowId (h.fits_iff.mp (batch.fits r hr))).1

theorem typedColumn_timestamp {schema : Schema} (hw : WellNamed schema)
    (h : StoresFields schema batch.schema.fields) :
    typedColumn batch timestampColumn .int64 missing mistyped =
      .ok (batch.rows.map fun r => .int64 (storedTimestamp r)) := by
  have hidx : batch.schema.indexOf timestampColumn = some (schema.fields.length + 1) :=
    h.indexOf hw (fullFields_getElem_timestamp schema)
  obtain ⟨s, hs, _, heq⟩ := h.getElem (fullFields_getElem_timestamp schema)
  have htype : batch.schema.typeAt (schema.fields.length + 1) = .int64 := by
    rw [Schema.typeAt, hs, heq (by decide)]
    rfl
  unfold typedColumn
  simp only [hidx, orElse, ok_bind, htype, ensure, if_true]
  refine congrArg Except.ok (List.map_congr_left fun r hr => ?_)
  exact cell_timestamp (h.fits_iff.mp (batch.fits r hr))

/-- The loop over one file's ids: consecutive from the start of the range, none
of them owned before. -/
theorem checkRowIds_some {first last offset : ℕ} :
    checkRowIds m file (some (first, last)) offset owned ids = .ok r ↔
      ids = List.range' (first + offset) ids.length ∧
      (∀ i ∈ ids, i < u64Bound ∧ i ∉ owned) ∧ r = owned ++ ids := by
  induction ids generalizing offset owned with
  | nil => simp [checkRowIds, eq_comm]
  | cons id ids ih =>
    simp only [checkRowIds, orElse, ok_bind, bind_eq_ok, ensure_eq_ok, exists_const, ih,
      List.length_cons, List.range'_succ, List.cons.injEq, List.mem_cons, List.append_assoc,
      List.singleton_append, ← Nat.add_assoc]
    constructor
    · rintro ⟨hlt, rfl, hnew, hids, hall, rfl⟩
      refine ⟨⟨rfl, hids⟩, ?_, rfl⟩
      rintro i (rfl | hi)
      · exact ⟨hlt, hnew⟩
      · exact ⟨(hall i hi).1, fun hmem => (hall i hi).2 (List.mem_append_left _ hmem)⟩
    · rintro ⟨⟨rfl, hids⟩, hall, rfl⟩
      refine ⟨(hall _ (.inl rfl)).1, rfl, (hall _ (.inl rfl)).2, hids, fun i hi => ?_, rfl⟩
      refine ⟨(hall i (.inr hi)).1, ?_⟩
      rw [List.mem_append, List.mem_singleton]
      rintro (hmem | rfl)
      · exact (hall i (.inr hi)).2 hmem
      · rw [hids, List.mem_range'_1] at hi
        omega

section

variable {P : Platform} {schema : Schema} {f : DataFileEntry × RecordBatch}

/-- The ids a file owns. -/
def fileRowIds (f : DataFileEntry × RecordBatch) : List ℕ := f.2.rows.map storedRowId

theorem FileValid.rowId_lt (h : FileValid P schema f) {i : ℕ} (hi : i ∈ fileRowIds f) :
    i < u64Bound := by
  obtain ⟨r, hr, rfl⟩ := List.mem_map.mp hi
  exact (cell_rowId (h.fits hr)).2

theorem FileValid.catalogRowIdRange (h : FileValid P schema f) (m : Manifest) :
    catalogRowIdRange m f.1 = .ok f.1.rowIdRange := by
  obtain ⟨first, hrange, hids⟩ := h.rowIds
  unfold Txn.catalogRowIdRange
  rw [hrange, rowIdRangeOf]
  by_cases hz : f.1.rowCount = 0
  · simp [hz, ensure]
  · have hlast : first + (f.1.rowCount - 1) ∈ fileRowIds f := by
      rw [fileRowIds, hids, List.mem_range'_1]
      omega
    have hbound := h.rowId_lt hlast
    have hsub : first + f.1.rowCount - 1 = first + (f.1.rowCount - 1) := by omega
    simp [hz, orElse, ensure, hbound, hsub]

variable {m : Manifest} {owned r : List ℕ}

theorem FileValid.validateRowIds (h : FileValid P schema f) (hw : WellNamed schema) :
    validateDataFileRowIds m f.1 f.2 f.1.rowIdRange owned = .ok r ↔
      (∀ i ∈ fileRowIds f, i ∉ owned) ∧ r = owned ++ fileRowIds f := by
  obtain ⟨first, hrange, hids⟩ := h.rowIds
  have hcells : (f.2.rows.map fun r => Cell.uint64 (storedRowId r)).map Cell.toRowId =
      fileRowIds f := by
    rw [List.map_map]
    rfl
  have hnull : (f.2.rows.map fun r => Cell.uint64 (storedRowId r)).all (fun c => !c.isNull) =
      true := by
    simp [Cell.isNull]
  unfold validateDataFileRowIds
  rw [typedColumn_rowId hw h.fields]
  simp only [ok_bind, hcells]
  rw [ensure_of _ hnull, ok_bind, hrange, rowIdRangeOf]
  by_cases hz : f.1.rowCount = 0
  · have hnil : fileRowIds f = [] := by rw [fileRowIds, hids, hz, List.range'_zero]
    simp [hz, hnil, checkRowIds, eq_comm]
  · have hlen : fileRowIds f = List.range' (first + 0) (fileRowIds f).length := by
      rw [fileRowIds, List.length_map, h.rowCount, hids, Nat.add_zero]
    rw [if_neg hz, checkRowIds_some]
    constructor
    · rintro ⟨_, hall, hr⟩
      exact ⟨fun i hi => (hall i hi).2, hr⟩
    · rintro ⟨hall, hr⟩
      exact ⟨hlen, fun i hi => ⟨h.rowId_lt hi, hall i hi⟩, hr⟩

/-- One valid file passes when its metadata does and none of its rows is owned
by an earlier file. -/
theorem FileValid.validateDataFile (h : FileValid P schema f) (hw : WellNamed schema)
    {store : Store} (hs : store.get (.data f.1.name) = some (.rows f.2)) :
    validateDataFile P store m schema f.1 owned = .ok r ↔
      f.2.schema.metadata = schema.metadata ∧ (∀ i ∈ fileRowIds f, i ∉ owned) ∧
        r = owned ++ fileRowIds f := by
  have hread : readBatch store f.1.name = .ok f.2 := by rw [readBatch, hs]
  have hrows : f.2.numRows = f.1.rowCount := h.rowCount
  unfold Txn.validateDataFile
  simp only [hread, ok_bind, bind_eq_ok, ensure_eq_ok, exists_const, h.byteLen, h.crc32c, hrows,
    validatePhysicalBatchSchema_of_stored h.fields, h.catalogRowIdRange,
    h.validateRowIds hw, true_and]

end

theorem validateDataFiles_go {P : Platform} {schema : Schema} (hw : WellNamed schema)
    {files : List (DataFileEntry × RecordBatch)} (hvalid : ∀ f ∈ files, FileValid P schema f)
    (hstored : ∀ f ∈ files, store.get (.data f.1.name) = some (.rows f.2))
    (hnames : (files.map fun f => f.1.name).Nodup) (hseen : ∀ f ∈ files, f.1.name ∉ seen)
    (hids : (files.flatMap fileRowIds).Nodup) (howned : ∀ i ∈ files.flatMap fileRowIds, i ∉ owned) :
    validateDataFiles.go P store m schema seen owned (files.map Prod.fst) = .ok r ↔
      (∀ f ∈ files, f.2.schema.metadata = schema.metadata) ∧
        r = owned ++ files.flatMap fileRowIds := by
  induction files generalizing seen owned with
  | nil => simp [validateDataFiles.go, eq_comm]
  | cons f files ih =>
    rw [List.forall_mem_cons] at hvalid hstored hseen
    rw [List.map_cons, List.nodup_cons] at hnames
    rw [List.flatMap_cons, List.nodup_append] at hids
    rw [List.flatMap_cons, List.forall_mem_append] at howned
    have hnext : ∀ g ∈ files, g.1.name ∉ f.1.name :: seen := by
      intro g hg hmem
      rcases List.mem_cons.mp hmem with heq | hmem
      · exact hnames.1 (List.mem_map.mpr ⟨g, hg, heq⟩)
      · exact hseen.2 g hg hmem
    have hfree : ∀ i ∈ files.flatMap fileRowIds, i ∉ owned ++ fileRowIds f := by
      intro i hi hmem
      rcases List.mem_append.mp hmem with hmem | hmem
      · exact howned.2 i hi hmem
      · exact hids.2.2 i hmem i hi rfl
    simp only [List.map_cons, validateDataFiles.go, bind_eq_ok, ensure_eq_ok, exists_const,
      hseen.1, not_false_eq_true, true_and, hvalid.1.validateDataFile hw hstored.1,
      List.forall_mem_cons, List.flatMap_cons]
    constructor
    · rintro ⟨_, ⟨hmeta, _, rfl⟩, hrest⟩
      rw [ih hvalid.2 hstored.2 hnames.2 hnext hids.2.1 hfree] at hrest
      exact ⟨⟨hmeta, hrest.1⟩, by rw [hrest.2, List.append_assoc]⟩
    · rintro ⟨⟨hmeta, hrest⟩, rfl⟩
      refine ⟨_, ⟨hmeta, howned.1, rfl⟩, ?_⟩
      rw [ih hvalid.2 hstored.2 hnames.2 hnext hids.2.1 hfree]
      exact ⟨hrest, by rw [List.append_assoc]⟩

/-! ### Tombstones and segments -/

theorem validateTombstones_go {seen tombstones : List ℕ} :
    validateTombstones.go m owned seen tombstones = .ok u ↔
      tombstones.Nodup ∧ ∀ i ∈ tombstones, i ∈ owned ∧ i ∉ seen := by
  induction tombstones generalizing seen with
  | nil => simp [validateTombstones.go]
  | cons i tombstones ih =>
    rw [List.forall_mem_cons]
    simp only [validateTombstones.go, bind_eq_ok, ensure_eq_ok, exists_const, ih, List.nodup_cons,
      List.mem_cons, not_or]
    constructor
    · rintro ⟨howned, hnew, hnodup, hall⟩
      refine ⟨⟨fun hmem => (hall i hmem).2.1 rfl, hnodup⟩, ⟨howned, hnew⟩, fun j hj => ?_⟩
      exact ⟨(hall j hj).1, (hall j hj).2.2⟩
    · rintro ⟨⟨hnot, hnodup⟩, ⟨howned, hnew⟩, hall⟩
      refine ⟨howned, hnew, hnodup, fun j hj => ⟨(hall j hj).1, ?_, (hall j hj).2⟩⟩
      rintro rfl
      exact hnot hj

theorem checkVectorRows_eq_ok {name : ObjectName} :
    checkVectorRows name owned vectorRows ids = .ok r ↔
      ids.Nodup ∧ (∀ i ∈ ids, i ∈ owned ∧ i ∉ vectorRows) ∧ r = vectorRows ++ ids := by
  induction ids generalizing vectorRows with
  | nil => simp [checkVectorRows, eq_comm]
  | cons i ids ih =>
    simp only [checkVectorRows, bind_eq_ok, ensure_eq_ok, exists_const, ih, List.nodup_cons,
      List.forall_mem_cons, List.mem_append, List.mem_singleton, not_or, List.append_assoc,
      List.singleton_append]
    constructor
    · rintro ⟨howned, hnew, hnodup, hall, rfl⟩
      refine ⟨⟨fun hmem => (hall i hmem).2.2 rfl, hnodup⟩, ⟨⟨howned, hnew⟩, fun j hj => ?_⟩, rfl⟩
      exact ⟨(hall j hj).1, (hall j hj).2.1⟩
    · rintro ⟨⟨hnot, hnodup⟩, ⟨⟨howned, hnew⟩, hall⟩, rfl⟩
      refine ⟨howned, hnew, hnodup, fun j hj => ⟨(hall j hj).1, (hall j hj).2, ?_⟩, rfl⟩
      rintro rfl
      exact hnot hj

theorem SegmentValid.validateSegment {g : SegmentEntry × Segment} (h : SegmentValid g) :
    validateSegment g.1 g.2 = .ok () := by
  unfold Txn.validateSegment
  simp only [bind_eq_ok, ensure_eq_ok, exists_const]
  exact ⟨h.byteLen, h.formatVersion.symm, h.vectorCount, h.dimension, h.rowIdRange⟩

theorem loadSegments_go {segments : List (SegmentEntry × Segment)}
    (hvalid : ∀ g ∈ segments, SegmentValid g)
    (hstored : ∀ g ∈ segments, store.get (.data g.1.name) = some (.segment g.2))
    {established : Option ℕ} (hnames : (segments.map fun g => g.1.name).Nodup)
    (hseen : ∀ g ∈ segments, g.1.name ∉ seen)
    (hdim : ∀ g ∈ segments, ∀ g' ∈ segments, g.1.dimension = g'.1.dimension)
    (hest : ∀ g ∈ segments, ∀ d ∈ established, g.1.dimension = d)
    (hids : (segments.flatMap fun g => g.2.rowIds).Nodup)
    (hrows : ∀ i ∈ segments.flatMap fun g => g.2.rowIds, i ∈ owned ∧ i ∉ vectorRows) :
    loadSegments.go store owned seen established vectorRows (segments.map Prod.fst) =
      .ok (segments.map fun g => (g.2, g.1.zoneMap)) := by
  induction segments generalizing seen established vectorRows with
  | nil => rfl
  | cons g segments ih =>
    rw [List.forall_mem_cons] at hvalid hstored hseen hest
    rw [List.map_cons, List.nodup_cons] at hnames
    rw [List.flatMap_cons, List.nodup_append] at hids
    rw [List.flatMap_cons, List.forall_mem_append] at hrows
    have hread : readSegment store g.1.name = .ok g.2 := by rw [readSegment, hstored.1]
    have hexpected : established.getD g.1.dimension = g.1.dimension := by
      cases established with
      | none => rfl
      | some d => exact (hest.1 d rfl).symm
    have hnext : ∀ g' ∈ segments, g'.1.name ∉ g.1.name :: seen := by
      intro g' hg hmem
      rcases List.mem_cons.mp hmem with heq | hmem
      · exact hnames.1 (List.mem_map.mpr ⟨g', hg, heq⟩)
      · exact hseen.2 g' hg hmem
    have hfree : ∀ i ∈ segments.flatMap (fun g => g.2.rowIds),
        i ∈ owned ∧ i ∉ vectorRows ++ g.2.rowIds := by
      intro i hi
      refine ⟨(hrows.2 i hi).1, fun hmem => ?_⟩
      rcases List.mem_append.mp hmem with hmem | hmem
      · exact (hrows.2 i hi).2 hmem
      · exact hids.2.2 i hmem i hi rfl
    have hfirst : ∀ a ∈ segments, ∀ d ∈ some g.1.dimension, a.1.dimension = d := by
      intro a ha d hd
      cases hd
      exact hdim a (List.mem_cons_of_mem _ ha) g List.mem_cons_self
    have hrest := ih hvalid.2 hstored.2 hnames.2 hnext
      (fun a ha b hb => hdim a (List.mem_cons_of_mem _ ha) b (List.mem_cons_of_mem _ hb))
      hfirst hids.2.1 hfree
    have hcheck : checkVectorRows g.1.name owned vectorRows g.2.rowIds =
        .ok (vectorRows ++ g.2.rowIds) := checkVectorRows_eq_ok.mpr ⟨hids.1, hrows.1, rfl⟩
    simp only [List.map_cons, loadSegments.go, hexpected]
    rw [ensure_of _ hseen.1, ok_bind, hread, ok_bind, hvalid.1.validateSegment, ok_bind,
      ensure_of _ trivial, ok_bind, hcheck, ok_bind, hrest]
    rfl

/-! ### All three validators -/

section

variable {P : Platform} {s : Snapshot} {cat : Catalog} {store : Store}

theorem Snapshot.Valid.dataNames_nodup (h : s.Valid P cat) :
    (cat.files.map fun f => f.1.name).Nodup := by
  have := (List.nodup_append.mp h.names_nodup).1
  rwa [Manifest.dataNames, h.files_eq, List.map_map] at this

theorem Snapshot.Valid.segmentNames_nodup (h : s.Valid P cat) :
    (cat.segments.map fun g => g.1.name).Nodup := by
  have := (List.nodup_append.mp h.names_nodup).2.1
  rwa [Manifest.segmentNames, h.segments_eq, List.map_map] at this

theorem Snapshot.Valid.validateDataFiles (h : s.Valid P cat) (hs : cat.StoredIn store)
    {r : List ℕ} :
    validateDataFiles P store s.manifest s.schema = .ok r ↔
      cat.MetadataKept s.schema ∧ r = cat.rowIds := by
  have hids : cat.files.flatMap fileRowIds = cat.rowIds := cat.rowIds_eq.symm
  unfold Txn.validateDataFiles
  rw [h.files_eq, validateDataFiles_go h.wellNamed h.fileValid hs.files h.dataNames_nodup
    (by simp) (by rw [hids]; exact h.rowIds_nodup) (by simp), hids, List.nil_append]
  rfl

theorem Snapshot.Valid.validateTombstones (h : s.Valid P cat) :
    validateTombstones s.manifest cat.rowIds = .ok () := by
  unfold Txn.validateTombstones
  rw [validateTombstones_go, ← h.tombstones_eq]
  exact ⟨h.tombstones_nodup, fun i hi => ⟨h.tombstones_owned i hi, List.not_mem_nil⟩⟩

theorem Snapshot.Valid.loadSegments (h : s.Valid P cat) (hs : cat.StoredIn store) :
    loadSegments store s.manifest cat.rowIds = .ok s.index := by
  unfold Txn.loadSegments
  rw [h.segments_eq, h.index_eq]
  exact loadSegments_go h.segmentValid hs.segments h.segmentNames_nodup (by simp) h.dimension_eq
    (by simp) h.vectorIds_nodup fun i hi => ⟨h.vectorIds_owned i hi, List.not_mem_nil⟩

/-- Recovery accepts a valid version exactly when its files kept the schema's
metadata, and then loads the index of the snapshot that published it. -/
theorem Snapshot.Valid.validateCatalog (h : s.Valid P cat) (hs : cat.StoredIn store)
    {parts : List (SegmentPart Stats)} :
    validateCatalog P store s.manifest s.schema = .ok parts ↔
      cat.MetadataKept s.schema ∧ parts = s.index := by
  simp only [Txn.validateCatalog, bind_eq_ok, h.validateDataFiles hs]
  constructor
  · rintro ⟨_, ⟨hmeta, rfl⟩, _, _, hload⟩
    rw [h.loadSegments hs] at hload
    exact ⟨hmeta, (Except.ok.inj hload).symm⟩
  · rintro ⟨hmeta, rfl⟩
    exact ⟨_, ⟨hmeta, rfl⟩, (), h.validateTombstones, h.loadSegments hs⟩

/-- Without row files the logical schema does not matter. -/
theorem Snapshot.Valid.validateCatalog_of_nil (h : s.Valid P cat) (hs : cat.StoredIn store)
    (hnil : cat.files = []) (logical : Schema) :
    Txn.validateCatalog P store s.manifest logical = .ok s.index := by
  have hids : cat.rowIds = [] := by rw [cat.rowIds_eq, hnil]; rfl
  have htombs := h.validateTombstones
  have hload := h.loadSegments hs
  rw [hids] at htombs hload
  unfold Txn.validateCatalog Txn.validateDataFiles
  rw [h.files_eq, hnil, List.map_nil, validateDataFiles.go, ok_bind, htombs, ok_bind, hload]

/-- A row file does not pass under a logical schema of another width. -/
theorem Snapshot.Valid.validateCatalog_ne_ok (h : s.Valid P cat) (hs : cat.StoredIn store)
    (hne : cat.files ≠ []) {logical : Schema}
    (hlen : logical.fields.length ≠ s.schema.fields.length) {parts : List (SegmentPart Stats)} :
    Txn.validateCatalog P store s.manifest logical ≠ .ok parts := by
  obtain ⟨f, rest, hfiles⟩ := List.exists_cons_of_ne_nil hne
  have hf : f ∈ cat.files := hfiles ▸ List.mem_cons_self
  have hread : readBatch store f.1.name = .ok f.2 := by rw [readBatch, hs.files f hf]
  intro hok
  simp only [Txn.validateCatalog, Txn.validateDataFiles, h.files_eq, hfiles, List.map_cons,
    validateDataFiles.go, validateDataFile, hread, ok_bind, bind_eq_ok] at hok
  obtain ⟨_, ⟨_, _, _, ⟨_, _, _, _, _, hschema, _⟩, _⟩, _⟩ := hok
  exact validatePhysicalBatchSchema_ne_ok (h.fileValid f hf).fields hlen hschema

end

end StrataDB.Txn
