import StrataDB.Storage.Layout
import StrataDB.Storage.Stats
import StrataDB.Index.Segment

/-! Manifests (`storage/src/manifest.rs`): the durable catalog of one version.
A manifest is kept decoded. What its JSON envelope can carry is decided by a
format: the size limits of recovery, and the floats that survive being printed
and parsed, none of which is infinite or NaN. -/

namespace StrataDB.Storage

open Lib Arrow

/-- `StorageError`. I/O and third-party failures carry a description. -/
inductive StorageError
  | io (reason : String)
  | notFound (key : Key)
  | arrow (error : ArrowError)
  | corruptManifest (key : Key) (reason : String)
  | corruptDataFile (key : Key) (reason : String)
  | unknownSchemaVersion (version : ℕ)
  | migrationSourceVersion (expected actual : ℕ)
  | migrationUnsupportedDirection (fromVersion target : ℕ)
  | migrationUnsupported (name : String) (fromVersion target : ℕ)
  | migrationIncompatibleType (detail : String)
  | migrationLossyConversion (detail : String)
  | schemaVersionChanged (expected actual : ℕ)
  | missingRowIdHighWater
  | alreadyExists (key : Key)
  | publicationIndeterminate (key : Key)
  deriving DecidableEq

/-- One row file; the row-id range is inclusive and absent for an empty file. -/
structure DataFileEntry where
  name : ObjectName
  byteLen : ℕ
  crc32c : ℕ
  rowCount : ℕ
  rowIdRange : Option (ℕ × ℕ)
  stats : Stats
  deriving DecidableEq

/-- One index segment; the row-id range is inclusive. -/
structure SegmentEntry where
  name : ObjectName
  formatVersion : ℕ
  vectorCount : ℕ
  dimension : ℕ
  rowIdMin : ℕ
  rowIdMax : ℕ
  byteLen : ℕ
  zoneMap : Stats
  deriving DecidableEq

structure Manifest where
  version : ℕ
  schemaVersion : Option ℕ
  schema : Schema
  dataFiles : List DataFileEntry
  nextRowId : ℕ
  tombstones : List ℕ
  nextAttemptId : ℕ
  commitTimeHighWater : ℤ
  committedAtUs : ℤ
  segments : List SegmentEntry
  deriving DecidableEq

def initialSchemaVersion : ℕ := 1

def addNullableColumnSchemaVersion : ℕ := 2

namespace Manifest

def emptyWithSchema (schema : Schema) : Manifest where
  version := 0
  schemaVersion := some initialSchemaVersion
  schema := schema
  dataFiles := []
  nextRowId := 0
  tombstones := []
  nextAttemptId := 0
  commitTimeHighWater := 0
  committedAtUs := 0
  segments := []

/-- `Manifest::schema_version`: a manifest without one is in the initial catalog. -/
def effectiveSchemaVersion (m : Manifest) : ℕ := m.schemaVersion.getD initialSchemaVersion

/-- The names of the data files and segments, in catalog order. -/
def dataNames (m : Manifest) : List ObjectName := m.dataFiles.map DataFileEntry.name

def segmentNames (m : Manifest) : List ObjectName := m.segments.map SegmentEntry.name

/-- Every object the manifest lists. -/
def objectNames (m : Manifest) : List ObjectName := m.dataNames ++ m.segmentNames

def key (m : Manifest) : Key := .manifest m.version

end Manifest

def ColumnStats.floats (s : ColumnStats) : List F64 :=
  [s.min, s.max].filterMap fun
    | .float64 v => some v
    | _ => none

def Stats.floats (s : Stats) : List F64 := s.entries.flatMap fun e => ColumnStats.floats e.2

/-- Every float the manifest's JSON carries. -/
def Manifest.floats (m : Manifest) : List F64 :=
  m.dataFiles.flatMap (fun e => Stats.floats e.stats) ++
    m.segments.flatMap (fun e => Stats.floats e.zoneMap)

/-- What the JSON envelope can carry: the byte, node and collection limits that
recovery enforces, and the floats that parse back to themselves. -/
structure Format where
  withinLimits : Manifest → Bool
  floatRoundTrips : F64 → Bool
  manifestBytes : Manifest → ℕ
  isFinite_of_roundTrips : ∀ x, floatRoundTrips x = true → x.isFinite = true

/-- `validate_schema_version`. -/
def validateSchemaVersion (version : ℕ) : Except StorageError Unit :=
  ensure (version = initialSchemaVersion ∨ version = addNullableColumnSchemaVersion)
    (.unknownSchemaVersion version)

/-- `decode_manifest_with_byte_count` on the bytes of `m` stored under the
manifest key of `version`. -/
def decodeManifest (F : Format) (version : ℕ) (m : Manifest) : Except StorageError Manifest := do
  ensure (F.withinLimits m = true)
    (.corruptManifest (.manifest version) "manifest exceeds a recovery limit")
  ensure (m.floats.all F.floatRoundTrips = true)
    (.corruptManifest (.manifest version) "invalid type: null, expected f64")
  ensure (m.version = version)
    (.corruptManifest (.manifest version) "filename version does not match payload version")
  validateSchemaVersion m.effectiveSchemaVersion
  return m

variable {F : Format} {m m' : Manifest} {y : F64}

theorem decodeManifest_eq_ok {version : ℕ} :
    decodeManifest F version m = .ok m' ↔
      m' = m ∧ F.withinLimits m = true ∧ m.floats.all F.floatRoundTrips = true ∧
        m.version = version ∧ validateSchemaVersion m.effectiveSchemaVersion = .ok () := by
  simp only [decodeManifest, bind_eq_ok, ensure_eq_ok, pure_eq_ok]
  constructor
  · rintro ⟨_, h₁, _, h₂, _, h₃, _, h₄, rfl⟩
    exact ⟨rfl, h₁, h₂, h₃, h₄⟩
  · rintro ⟨rfl, h₁, h₂, h₃, h₄⟩
    exact ⟨(), h₁, (), h₂, (), h₃, (), h₄, rfl⟩

theorem isFinite_of_decodes {version : ℕ} (h : decodeManifest F version m = .ok m') :
    ∀ y ∈ m.floats, y.isFinite = true := fun y hy =>
  F.isFinite_of_roundTrips y (List.all_eq_true.mp (decodeManifest_eq_ok.mp h).2.2.1 y hy)

theorem Manifest.mem_floats_of_file {entry : DataFileEntry} (h : entry ∈ m.dataFiles)
    (hy : y ∈ Stats.floats entry.stats) : y ∈ m.floats :=
  List.mem_append_left _ (List.mem_flatMap.mpr ⟨entry, h, hy⟩)

theorem Manifest.mem_floats_of_segment {entry : SegmentEntry} (h : entry ∈ m.segments)
    (hy : y ∈ Stats.floats entry.zoneMap) : y ∈ m.floats :=
  List.mem_append_right _ (List.mem_flatMap.mpr ⟨entry, h, hy⟩)

end StrataDB.Storage
