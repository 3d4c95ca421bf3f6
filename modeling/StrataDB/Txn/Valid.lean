import StrataDB.Storage.StatsBounds
import StrataDB.Txn.Stored
import StrataDB.Txn.Transaction

/-! What a published version is: a manifest together with the decoded objects it
lists, and the facts that tie them together. Every writer establishes these
facts, every reader and every validator relies on them. -/

namespace StrataDB.Txn

open Lib Arrow Index Storage

/-! ### Hidden columns of a stored row -/

/-- The row id, in the column before last. -/
def storedRowId (r : Row) : ℕ := Cell.toRowId (Row.cell r (r.length - 2))

/-- The timestamp, in the last column. -/
def storedTimestamp (r : Row) : ℤ := Cell.toTimestamp (Row.cell r (r.length - 1))

theorem fullFields_getElem_rowId (schema : Schema) :
    (fullFields schema)[schema.fields.length]? = some rowIdField := by
  rw [fullFields, List.getElem?_append_right (Nat.le_refl _), Nat.sub_self]
  rfl

theorem fullFields_getElem_timestamp (schema : Schema) :
    (fullFields schema)[schema.fields.length + 1]? = some timestampField := by
  rw [fullFields, List.getElem?_append_right (by omega), Nat.add_sub_cancel_left]
  rfl

theorem fullFields_getElem_logical {schema : Schema} {k : ℕ} {f : Field}
    (h : schema.fields[k]? = some f) : (fullFields schema)[k]? = some f := by
  rw [fullFields, List.getElem?_append_left (List.getElem?_eq_some_iff.mp h).1, h]

variable {r : Row} {c : Cell} {P : Platform} {f : DataFileEntry × RecordBatch} {s : Snapshot}

theorem length_of_fits {schema : Schema} (h : fitsFields (fullFields schema) r = true) :
    r.length = schema.fields.length + 2 := by
  rw [fitsFields_length h, fullFields, List.length_append]
  rfl

theorem uint64_of_accepts (h : rowIdField.accepts c = true) :
    c = .uint64 (Cell.toRowId c) ∧ Cell.toRowId c < u64Bound := by
  cases c <;> simp_all [Field.accepts, rowIdField, Field.new, Cell.isNull, Cell.hasType,
    Cell.toRowId, u64Bound]

theorem int64_of_accepts (h : timestampField.accepts c = true) :
    c = .int64 (Cell.toTimestamp c) := by
  cases c <;> simp_all [Field.accepts, timestampField, Field.new, Cell.isNull, Cell.hasType,
    Cell.toTimestamp]

theorem cell_rowId {schema : Schema} (h : fitsFields (fullFields schema) r = true) :
    Row.cell r schema.fields.length = .uint64 (storedRowId r) ∧ storedRowId r < u64Bound := by
  have hcell := uint64_of_accepts (accepts_cell h (fullFields_getElem_rowId schema))
  have hpos : r.length - 2 = schema.fields.length := by rw [length_of_fits h, Nat.add_sub_cancel]
  unfold storedRowId
  rw [hpos]
  exact hcell

theorem cell_timestamp {schema : Schema} (h : fitsFields (fullFields schema) r = true) :
    Row.cell r (schema.fields.length + 1) = .int64 (storedTimestamp r) := by
  have hcell := int64_of_accepts (accepts_cell h (fullFields_getElem_timestamp schema))
  have hpos : r.length - 1 = schema.fields.length + 1 := by
    rw [length_of_fits h]
    rfl
  unfold storedTimestamp
  rw [hpos]
  exact hcell

/-- A row of the full schema is its logical cells, its id and its timestamp. -/
theorem row_eq {schema : Schema} (h : fitsFields (fullFields schema) r = true) :
    r = r.take schema.fields.length ++ [.uint64 (storedRowId r), .int64 (storedTimestamp r)] := by
  have hlen := length_of_fits h
  rw [← (cell_rowId h).1, ← cell_timestamp h]
  refine List.ext_getElem (by simp [hlen]) fun i h₁ h₂ => ?_
  by_cases hi : i < schema.fields.length
  · rw [List.getElem_append_left (by simpa [hlen] using hi), List.getElem_take]
  · have hcases : i = schema.fields.length ∨ i = schema.fields.length + 1 := by omega
    rcases hcases with rfl | rfl <;>
      simp [List.getElem_append_right, Row.cell, List.getD_eq_getElem?_getD, hlen]

/-! ### Row files and segments -/

/-- A row file and the entry that describes it. The ids count up from the start
of the entry's range. -/
structure FileValid (P : Platform) (schema : Schema) (f : DataFileEntry × RecordBatch) : Prop where
  byteLen : P.kernels.ipcByteLen f.2 = f.1.byteLen
  crc32c : P.kernels.ipcCrc32c f.2 = f.1.crc32c
  fields : StoresFields schema f.2.schema.fields
  rowCount : f.2.rows.length = f.1.rowCount
  rowIds : ∃ first, f.1.rowIdRange = rowIdRangeOf first f.1.rowCount ∧
    f.2.rows.map storedRowId = List.range' first f.1.rowCount

/-- A segment and the entry that describes it. -/
structure SegmentValid (g : SegmentEntry × Segment) : Prop where
  byteLen : g.2.byteLen = g.1.byteLen
  formatVersion : g.1.formatVersion = segmentFormatVersion
  vectorCount : g.2.nodeCount = g.1.vectorCount
  dimension : g.2.dimension = g.1.dimension
  dimension_ne_zero : g.2.dimension ≠ 0
  rowIdRange : g.2.rowIdRange = (g.1.rowIdMin, g.1.rowIdMax)
  rowIds_ne_nil : g.2.rowIds ≠ []
  vectors_length : g.2.vectors.length = g.2.rowIds.length
  vector_length : ∀ v ∈ g.2.vectors, v.length = g.2.dimension
  encodable : g.2.graph.Encodable g.2.nodeCount

theorem FileValid.fits {schema : Schema} (h : FileValid P schema f) (hr : r ∈ f.2.rows) :
    fitsFields (fullFields schema) r = true :=
  h.fields.fits_iff.mp (f.2.fits r hr)

/-- The decoded objects a manifest lists, each with its entry. -/
structure Catalog where
  files : List (DataFileEntry × RecordBatch)
  segments : List (SegmentEntry × Segment)

namespace Catalog

/-- All rows, in scan order. -/
def rows (cat : Catalog) : List Row := cat.files.flatMap fun f => f.2.rows

/-- The ids of all rows. -/
def rowIds (cat : Catalog) : List ℕ := cat.rows.map storedRowId

/-- The rows whose vectors a segment indexes. -/
def indexedRows (cat : Catalog) (segment : Segment) : List Row :=
  cat.rows.filter fun r => storedRowId r ∈ segment.rowIds

/-- All indexed vectors under their row ids. -/
def vectors (cat : Catalog) : List VectorInsert :=
  cat.segments.flatMap fun g => List.zipWith VectorInsert.mk g.2.rowIds g.2.vectors

/-- The ids of all indexed vectors. -/
def vectorIds (cat : Catalog) : List ℕ := cat.segments.flatMap fun g => g.2.rowIds

/-- The rows that are not tombstoned, in scan order. -/
def liveRows (cat : Catalog) (tombstones : List ℕ) : List Row :=
  cat.rows.filter fun r => storedRowId r ∉ tombstones

/-- The index parts of the segments. -/
def parts (cat : Catalog) : List (SegmentPart Stats) := cat.segments.map fun g => (g.2, g.1.zoneMap)

/-- The store holds every object of the catalog under its name. -/
structure StoredIn (cat : Catalog) (store : Store) : Prop where
  files : ∀ f ∈ cat.files, store.get (.data f.1.name) = some (.rows f.2)
  segments : ∀ g ∈ cat.segments, store.get (.data g.1.name) = some (.segment g.2)

theorem rowIds_eq (cat : Catalog) :
    cat.rowIds = cat.files.flatMap fun f => f.2.rows.map storedRowId := by
  rw [rowIds, rows, List.map_flatMap]

end Catalog

/-- File statistics against the rows of the file: they cover every value, as long
as they are finite. -/
def StatsCover (schema : Schema) (stats : Stats) (rows : List Row) : Prop :=
  ∀ name entry, stats.lookup name = some entry →
    (∀ y ∈ ColumnStats.floats entry, y.isFinite = true) →
    ∀ k f, (fullFields schema)[k]? = some f → f.name = name →
      ∀ r ∈ rows, ∀ x, Cell.value? (Row.cell r k) = some x → entry.Covers x

theorem StatsCover.subset {schema : Schema} {stats : Stats} {rows rows' : List Row}
    (h : StatsCover schema stats rows) (hsub : ∀ r ∈ rows', r ∈ rows) :
    StatsCover schema stats rows' := fun name entry hlookup hfin k f hk hname r hr =>
  h name entry hlookup hfin k f hk hname r (hsub r hr)

/-- Statistics of a row file: they cover its values, and where they bound a float
column, the bounds are those of its slots. -/
structure FileStats (schema : Schema) (stats : Stats) (rows : List Row) : Prop where
  cover : StatsCover schema stats rows
  floats : ∃ slots : Slots, ∀ k f, (fullFields schema)[k]? = some f → f.dataType = .float64 →
    ∀ s, stats.lookup f.name = some s → float64Stats (slots k) (rows.map (Row.cell · k)) = some s

/-- The zone map of some files covers the rows of all of them. -/
theorem statsCover_zoneMap {schema : Schema} {files : List (DataFileEntry × RecordBatch)}
    (hfin : ∀ f ∈ files, ∀ y ∈ Stats.floats f.1.stats, y.isFinite = true)
    (h : ∀ f ∈ files, FileStats schema f.1.stats f.2.rows) :
    StatsCover schema (zoneMapOf (files.map fun f => f.1.stats))
      (files.flatMap fun f => f.2.rows) := by
  intro name entry hlookup _ k field hk hname r hr x hx
  obtain ⟨f, hf, hr⟩ := List.mem_flatMap.mp hr
  obtain ⟨e, he, hcovers⟩ := (zoneMapOf_lookup (List.forall_mem_map.mpr hfin) hlookup).2 f.1.stats
    (List.mem_map_of_mem hf)
  exact hcovers x ((h f hf).cover name e he
    (fun y hy => hfin f hf y (mem_floats_iff.mpr ⟨name, e, he, hy⟩)) k field hk hname r hr x hx)

/-- Every vector of the rows has finite components only. -/
def VectorsFinite (schema : Schema) (rows : List Row) : Prop :=
  ∀ k, schema.indexOf vectorColumn = some k →
    ∀ r ∈ rows, ∀ xs, Row.cell r k = .vector xs → xs.all Binary.isFinite = true

def Cell.toVector? : Cell → Option Vector
  | .vector xs => some xs
  | _ => none

/-- The vector of a stored row under its row id, if it has one. -/
def vectorOf (schema : Schema) (r : Row) : Option VectorInsert :=
  (schema.indexOf vectorColumn).bind fun k =>
    (Cell.toVector? (Row.cell r k)).map fun xs => ⟨storedRowId r, xs⟩

/-- The name was given out before: its attempt id is below the counter, or its
version is not a later one. -/
def NameBelow (attempts version : ℕ) : ObjectName → Prop
  | .rowFile attempt _ => attempt < attempts
  | .segment attempt => attempt < attempts
  | .migratedFile v _ => v ≤ version
  | .migratedSegment v _ => v ≤ version

theorem NameBelow.mono {attempts attempts' version version' : ℕ} {name : ObjectName}
    (h : NameBelow attempts version name) (ha : attempts ≤ attempts') (hv : version ≤ version') :
    NameBelow attempts' version' name := by
  cases name <;> simp only [NameBelow] at h ⊢ <;> omega

/-- A snapshot whose manifest lists exactly the objects of a catalog, all of them
in order. Nothing here depends on a store. -/
structure Snapshot.Valid (P : Platform) (s : Snapshot) (cat : Catalog) : Prop where
  version_eq : s.manifest.version = s.version
  schema_eq : s.manifest.schema = s.schema
  wellNamed : WellNamed s.schema
  decodes : decodeManifest P.format s.version s.manifest = .ok s.manifest
  files_eq : s.manifest.dataFiles = cat.files.map Prod.fst
  segments_eq : s.manifest.segments = cat.segments.map Prod.fst
  names_nodup : s.manifest.objectNames.Nodup
  fileValid : ∀ f ∈ cat.files, FileValid P s.schema f
  rowIds_nodup : cat.rowIds.Nodup
  tombstones_eq : s.tombstones = s.manifest.tombstones
  tombstones_nodup : s.tombstones.Nodup
  tombstones_owned : ∀ i ∈ s.tombstones, i ∈ cat.rowIds
  segmentValid : ∀ g ∈ cat.segments, SegmentValid g
  dimension_eq : ∀ g ∈ cat.segments, ∀ g' ∈ cat.segments, g.1.dimension = g'.1.dimension
  vectorIds_nodup : cat.vectorIds.Nodup
  vectorIds_owned : ∀ i ∈ cat.vectorIds, i ∈ cat.rowIds
  index_eq : s.index = cat.parts
  fileStats : ∀ f ∈ cat.files, FileStats s.schema f.1.stats f.2.rows
  zoneCover : ∀ g ∈ cat.segments, StatsCover s.schema g.1.zoneMap (cat.indexedRows g.2)
  vectorsFinite : VectorsFinite s.schema cat.rows
  vectors_eq : cat.vectors = cat.rows.filterMap (vectorOf s.schema)
  rowIds_lt : ∀ i ∈ cat.rowIds, i < s.manifest.nextRowId
  names_below : ∀ n ∈ s.manifest.objectNames, NameBelow s.manifest.nextAttemptId s.version n

variable {cat : Catalog}

theorem Snapshot.Valid.file_name_mem (h : s.Valid P cat) (hf : f ∈ cat.files) :
    f.1.name ∈ s.manifest.objectNames := by
  refine List.mem_append_left _ ?_
  rw [Manifest.dataNames, h.files_eq]
  exact List.mem_map_of_mem (List.mem_map_of_mem hf)

theorem Snapshot.Valid.segment_name_mem (h : s.Valid P cat) {g : SegmentEntry × Segment}
    (hg : g ∈ cat.segments) : g.1.name ∈ s.manifest.objectNames := by
  refine List.mem_append_right _ ?_
  rw [Manifest.segmentNames, h.segments_eq]
  exact List.mem_map_of_mem (List.mem_map_of_mem hg)

theorem Snapshot.Valid.object_stored {store : Store} (h : s.Valid P cat) (hs : cat.StoredIn store)
    {n : ObjectName} (hn : n ∈ s.manifest.objectNames) :
    ∃ object, store.get (.data n) = some object := by
  rw [Manifest.objectNames, Manifest.dataNames, Manifest.segmentNames, h.files_eq,
    h.segments_eq] at hn
  simp only [List.map_map, List.mem_append, List.mem_map, Function.comp_apply] at hn
  rcases hn with ⟨f, hf, rfl⟩ | ⟨g, hg, rfl⟩
  · exact ⟨_, hs.files f hf⟩
  · exact ⟨_, hs.segments g hg⟩

end StrataDB.Txn
