import StrataDB.Storage.Schema
import StrataDB.Txn.Transaction

/-! The schema migration (`Dataset::migrate_schema_inner`): every row file is
rewritten with one more null column, every segment is copied, the result is
checked as recovery would, and one new version is published. -/

namespace StrataDB.Txn

open Lib Arrow Index Storage

/-- Where the storage calls of a migration fail, if they do. -/
structure MigrationFaults where
  files : ℕ → FileInput := fun _ => {}
  segments : ℕ → Fault := fun _ => .none
  publication : Fault := .none

/-- One row file rewritten under a name of the new version. -/
def migrateFile (P : Platform) (column : Field) (version : ℕ) (inputs : ℕ → FileInput) :
    DataFileEntry × ℕ → Action DataFileEntry
  | (entry, index) => do
    let d ← Effect.reads id
    let batch ← Effect.lift (readBatch d.store entry.name)
    let rewritten ← Effect.lift (appendMigratedNullableColumn batch column)
    let name := ObjectName.migratedFile version index
    putObject (.data name) (.rows rewritten) (inputs index).fault
    return {
      name
      byteLen := P.kernels.ipcByteLen rewritten
      crc32c := P.kernels.ipcCrc32c rewritten
      rowCount := entry.rowCount
      rowIdRange := entry.rowIdRange
      stats := computeStats (inputs index).slots rewritten }

/-- One segment copied under a name of the new version. -/
def migrateSegment (version : ℕ) (faults : ℕ → Fault) :
    SegmentEntry × ℕ → Action SegmentEntry
  | (entry, index) => do
    let d ← Effect.reads id
    let segment ← Effect.lift (readSegment d.store entry.name)
    let name := ObjectName.migratedSegment version index
    putObject (.data name) (.segment segment) (faults index)
    Effect.lift (ensure (segment.byteLen = entry.byteLen)
      (.corruptSegment
        s!"migration copied segment {entry.name} as {segment.byteLen} bytes but catalog records {entry.byteLen}"))
    return { entry with name }

structure SchemaMigrationResult where
  name : String
  sourceSchemaVersion : ℕ
  targetSchemaVersion : ℕ
  manifestVersion : ℕ
  deriving DecidableEq

/-- The manifest a migration publishes. -/
def migratedManifest (source : Snapshot) (migration : SchemaMigration) (target : Schema)
    (version : ℕ) (ts : ℤ) (dataFiles : List DataFileEntry) (segments : List SegmentEntry) :
    Manifest :=
  { source.manifest with
    version
    schemaVersion := some migration.targetVersion
    schema := target
    dataFiles
    segments
    commitTimeHighWater := max source.manifest.commitTimeHighWater ts
    committedAtUs := ts }

/-- `migrate_schema_inner` up to the candidate snapshot and its report. -/
def migrationCandidate (P : Platform) (migration : SchemaMigration) (clock : Option ℕ)
    (faults : MigrationFaults) : Action (Snapshot × SchemaMigrationResult) := do
  let start ← Effect.reads id
  let source := start.current
  let target ← Effect.lift (lift .storage
    (migration.targetSchema source.manifest.effectiveSchemaVersion source.schema))
  Effect.lift (validateSchema target)
  let column ← Effect.lift (orElse migration.addedNullableColumn
    (.storage (.migrationUnsupported migration.name migration.sourceVersion
      migration.targetVersion)))
  let version ← Effect.lift (checkedAdd source.version 1 s!"version {source.version} + 1")
  let dataFiles ← Effect.forEach (migrateFile P column version faults.files)
    source.manifest.dataFiles.zipIdx
  let segments ← Effect.forEach (migrateSegment version faults.segments)
    source.manifest.segments.zipIdx
  let ts ← issueTimestamp clock
  let m := migratedManifest source migration target version ts dataFiles segments
  let d ← Effect.reads id
  let index ← Effect.lift (validateCatalog P d.store m target)
  return (⟨version, target, m, index, source.tombstones⟩,
    ⟨migration.name, migration.sourceVersion, migration.targetVersion, version⟩)

/-- `Dataset::migrate_schema`. -/
def migrateSchema (P : Platform) (migration : SchemaMigration) (clock : Option ℕ)
    (faults : MigrationFaults) : Action SchemaMigrationResult := do
  let candidate ← migrationCandidate P migration clock faults
  let indeterminate ← publishCandidateManifest P candidate.1.manifest faults.publication
  completeVisiblePublication candidate.1 [] indeterminate candidate.2

end StrataDB.Txn
