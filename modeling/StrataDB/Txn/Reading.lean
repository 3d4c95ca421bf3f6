import StrataDB.Lib.List
import StrataDB.Txn.Recovery

/-! Reading a valid version back: files are found, tombstoned rows are left out,
and a scan shows the remaining rows in manifest order. -/

namespace StrataDB.Txn

open Lib Arrow Index Storage Query

variable {P : Platform} {s : Snapshot} {cat : Catalog} {store : Store}

/-- The rows of a file that the snapshot shows. -/
def Snapshot.liveBatch (s : Snapshot) (batch : RecordBatch) : RecordBatch :=
  batch.filter fun r => storedRowId r ∉ s.tombstones

variable {batch : RecordBatch} {α : Type} {f : DataFileEntry × RecordBatch}

theorem StoresFields.rowId_column {schema : Schema} (hw : WellNamed schema)
    (h : StoresFields schema batch.schema.fields) :
    batch.schema.indexOf rowIdColumn = some schema.fields.length ∧
      batch.schema.typeAt schema.fields.length = .uint64 := by
  obtain ⟨f, hf, _, heq⟩ := h.getElem (fullFields_getElem_rowId schema)
  refine ⟨h.indexOf hw (fullFields_getElem_rowId schema), ?_⟩
  rw [Schema.typeAt, hf, heq (by decide)]
  rfl

theorem filterTombstonedRows_of_stored {schema : Schema} (hw : WellNamed schema)
    (h : StoresFields schema batch.schema.fields) :
    s.filterTombstonedRows batch = .ok (s.liveBatch batch) := by
  unfold Snapshot.filterTombstonedRows
  by_cases hnil : s.tombstones = []
  · have hsame : s.liveBatch batch = batch := by
      apply RecordBatch.ext'
      · rfl
      · rw [Snapshot.liveBatch, RecordBatch.filter_rows, hnil]
        simp
    rw [if_pos (by simp [hnil]), hsame]
    rfl
  · obtain ⟨hidx, htype⟩ := h.rowId_column hw
    rw [if_neg (by simpa using hnil)]
    simp only [hidx, orElse, ok_bind, htype, ensure, if_true]
    refine congrArg Except.ok (RecordBatch.ext' rfl ?_)
    refine List.filter_congr fun r hr => ?_
    rw [(cell_rowId (h.fits_iff.mp (batch.fits r hr))).1]
    simp [Cell.toRowId]

theorem Snapshot.Valid.readSurvivingFile (h : s.Valid P cat) (hs : cat.StoredIn store)
    (hf : f ∈ cat.files) (process : RecordBatch → Except TxnError α) :
    s.readSurvivingFile store none process f.1 = process (s.liveBatch f.2) := by
  unfold Snapshot.readSurvivingFile
  simp only [readBatch, hs.files f hf, ok_bind,
    filterTombstonedRows_of_stored h.wellNamed (h.fileValid f hf).fields]

/-- The files that the predicate does not rule out are read, in manifest order. -/
theorem Snapshot.Valid.readSurvivingFiles_mapM (h : s.Valid P cat) (predicate : Option Predicate)
    (columns : Option (List String)) (process : RecordBatch → Except TxnError α) :
    s.readSurvivingFiles store predicate columns process =
      (cat.files.filter fun f => predicate.all (shouldScanFile f.1.stats)).mapM
        fun f => s.readSurvivingFile store columns process f.1 := by
  unfold Snapshot.readSurvivingFiles
  rw [h.files_eq, List.filter_map, List.mapM_map]
  rfl

theorem Snapshot.Valid.readSurvivingFiles_filter (h : s.Valid P cat) (hs : cat.StoredIn store)
    (predicate : Option Predicate) (process : RecordBatch → Except TxnError α) :
    s.readSurvivingFiles store predicate none process =
      (cat.files.filter fun f => predicate.all (shouldScanFile f.1.stats)).mapM
        fun f => process (s.liveBatch f.2) := by
  rw [h.readSurvivingFiles_mapM]
  exact mapM_congr fun f hf => h.readSurvivingFile hs (List.mem_of_mem_filter hf) process

theorem Snapshot.Valid.readSurvivingFiles (h : s.Valid P cat) (hs : cat.StoredIn store)
    (process : RecordBatch → Except TxnError α) :
    s.readSurvivingFiles store none none process =
      cat.files.mapM fun f => process (s.liveBatch f.2) := by
  rw [h.readSurvivingFiles_filter hs, List.filter_eq_self.mpr (by simp)]

theorem Snapshot.Valid.readSurvivingPhysicalBatches (h : s.Valid P cat)
    (hs : cat.StoredIn store) :
    s.readSurvivingPhysicalBatches store = .ok (cat.files.map fun f => s.liveBatch f.2) := by
  unfold Snapshot.readSurvivingPhysicalBatches
  rw [h.readSurvivingFiles hs]
  exact mapM_ok_of_forall fun _ _ => rfl

/-! ### Scans -/

/-- A projection may name any columns of the full schema. -/
theorem validateProjectionSchema_of_full (hw : WellNamed s.schema) {requested : Schema}
    (hmeta : requested.metadata = s.schema.metadata)
    (hfields : ∀ f ∈ requested.fields, f ∈ fullFields s.schema) :
    s.validateProjectionSchema requested = .ok () := by
  unfold Snapshot.validateProjectionSchema
  rw [ensure_of _ hmeta, ok_bind, forM_eq_ok]
  intro f hf
  have hexpected : s.projectionField f = .ok f := by
    unfold Snapshot.projectionField
    rcases List.mem_append.mp (hfields f hf) with hlog | hhid
    · have hname := hw.not_hidden f hlog
      rw [if_neg (fun h => hname (by rw [h]; decide)),
        if_neg (fun h => hname (by rw [h]; decide)), Schema.fieldWithName,
        find?_key_eq hw.nodup hlog]
      rfl
    · rcases List.mem_cons.mp hhid with rfl | hhid
      · rfl
      · rw [List.mem_singleton.mp hhid]
        rfl
  rw [hexpected, ok_bind]
  exact ensure_of _ rfl

theorem forall₂_range_of_getElem {fs gs : List Field}
    (h : ∀ (k : ℕ) (f : Field), fs[k]? = some f → gs[k]? = some f) :
    List.Forall₂ (fun f k => gs[k]? = some f) fs (List.range fs.length) := by
  rw [List.forall₂_iff_get]
  refine ⟨by simp, fun i h₁ h₂ => ?_⟩
  simp only [List.get_eq_getElem, List.getElem_range]
  exact h i _ (List.getElem?_eq_getElem h₁)

theorem Snapshot.Valid.castBatch_full (h : s.Valid P cat) (hf : f ∈ cat.files) :
    ∃ b, castBatchToSchema P.kernels (s.liveBatch f.2) (fullSchema s.schema) = .ok b ∧
      b.rows = (s.liveBatch f.2).rows := by
  obtain ⟨b, hb, _, hrows⟩ := castBatch_of_stored (K := P.kernels) h.wellNamed
    (show StoresFields s.schema (s.liveBatch f.2).schema.fields from (h.fileValid f hf).fields)
    (show List.Forall₂ _ (fullSchema s.schema).fields
        (List.range (fullSchema s.schema).fields.length) from
      forall₂_range_of_getElem fun _ _ hk => hk)
  refine ⟨b, hb, ?_⟩
  rw [hrows]
  conv_rhs => rw [← List.map_id (s.liveBatch f.2).rows]
  refine List.map_congr_left fun r hr => ?_
  have hlen := length_of_fits ((h.fileValid f hf).fits (List.mem_of_mem_filter hr))
  rw [map_cell_range r (by simp [fullSchema, hlen]), List.take_of_length_le
    (by simp [fullSchema, hlen])]
  rfl

theorem liveRows_eq_flatMap (s : Snapshot) (cat : Catalog) :
    cat.liveRows s.tombstones = cat.files.flatMap fun f => (s.liveBatch f.2).rows := by
  rw [Catalog.liveRows, Catalog.rows, List.filter_flatMap]
  rfl

theorem Catalog.fits (h : s.Valid P cat) {r : Row} (hr : r ∈ cat.rows) :
    fitsFields (fullFields s.schema) r = true := by
  obtain ⟨f, hf, hr⟩ := List.mem_flatMap.mp hr
  exact (h.fileValid f hf).fits hr

/-- A scan under the full schema shows the live rows, in scan order. -/
theorem Snapshot.Valid.scan_full (h : s.Valid P cat) (hs : cat.StoredIn store) :
    ∃ b, s.scan P store (fullSchema s.schema) = .ok b ∧ b.rows = cat.liveRows s.tombstones := by
  obtain ⟨bs, hbs, hforall⟩ := mapM_ok_of_exists fun f hf => h.castBatch_full (f := f) hf
  have hrows : bs.flatMap RecordBatch.rows = cat.liveRows s.tombstones := by
    rw [liveRows_eq_flatMap]
    exact flatMap_eq_of_forall₂ hforall
  have hfits : ∀ r ∈ bs.flatMap RecordBatch.rows,
      fitsFields (fullSchema s.schema).fields r = true := by
    intro r hr
    rw [hrows] at hr
    exact Catalog.fits h (List.mem_of_mem_filter hr)
  refine ⟨⟨fullSchema s.schema, _, hfits⟩, ?_, hrows⟩
  unfold Snapshot.scan
  have hproj : s.validateProjectionSchema (fullSchema s.schema) = .ok () :=
    validateProjectionSchema_of_full h.wellNamed rfl fun _ hf => hf
  rw [hproj, ok_bind, h.readSurvivingFiles hs, hbs, ok_bind, RecordBatch.concat,
    RecordBatch.tryNewWithOptions_of_fits hfits]
  rfl

/-- All catalogs of a snapshot on one store have the same live rows. -/
theorem Snapshot.Valid.liveRows_unique {cat' : Catalog} (h : s.Valid P cat) (h' : s.Valid P cat')
    (hs : cat.StoredIn store) (hs' : cat'.StoredIn store) :
    cat.liveRows s.tombstones = cat'.liveRows s.tombstones := by
  obtain ⟨b, hb, hrows⟩ := h.scan_full hs
  obtain ⟨b', hb', hrows'⟩ := h'.scan_full hs'
  rw [hb] at hb'
  cases hb'
  rw [← hrows, ← hrows']

end StrataDB.Txn
