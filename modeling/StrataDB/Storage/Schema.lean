import StrataDB.Storage.Manifest

/-! Schema migrations (`storage/src/schema.rs`). The only one the catalog can
publish adds a nullable column and leads from version 1 to version 2. -/

namespace StrataDB.Storage

open Lib Arrow

/-- A requested change of the dataset schema. -/
inductive SchemaMigration
  | addNullableColumn (sourceVersion targetVersion : ℕ) (column : Field)
  | changeColumnType (sourceVersion targetVersion : ℕ) (column : String) (targetType : DataType)
  deriving DecidableEq

namespace SchemaMigration

def name : SchemaMigration → String
  | addNullableColumn _ _ _ => "add_nullable_column"
  | changeColumnType _ _ _ _ => "change_column_type"

def sourceVersion : SchemaMigration → ℕ
  | addNullableColumn source _ _ => source
  | changeColumnType source _ _ _ => source

def targetVersion : SchemaMigration → ℕ
  | addNullableColumn _ target _ => target
  | changeColumnType _ target _ _ => target

def addedNullableColumn : SchemaMigration → Option Field
  | addNullableColumn _ _ column => some column
  | changeColumnType _ _ _ _ => none

/-- `SchemaMigration::target_schema`. -/
def targetSchema (migration : SchemaMigration) (currentVersion : ℕ) (current : Schema) :
    Except StorageError Schema := do
  validateSchemaVersion currentVersion
  ensure (migration.sourceVersion = currentVersion)
    (.migrationSourceVersion currentVersion migration.sourceVersion)
  ensure (migration.sourceVersion < migration.targetVersion)
    (.migrationUnsupportedDirection migration.sourceVersion migration.targetVersion)
  match migration with
  | addNullableColumn source target column =>
    ensure (source = initialSchemaVersion ∧ target = addNullableColumnSchemaVersion)
      (.migrationUnsupported migration.name source target)
    ensure (column.nullable = true)
      (.migrationIncompatibleType
        s!"new column \"{column.name}\" is required, but existing rows have no value")
    ensure (current.fields.all (fun field => field.name != column.name) = true)
      (.migrationIncompatibleType s!"column \"{column.name}\" already exists")
    return ⟨current.fields ++ [column], current.metadata⟩
  | changeColumnType _ _ column _ =>
    .error (.migrationLossyConversion s!"implicit conversion of column \"{column}\" is not supported")

/-- What an accepted migration is: version 1 to 2, one more nullable column. -/
theorem targetSchema_eq_ok {migration : SchemaMigration} {currentVersion : ℕ}
    {current target : Schema} :
    migration.targetSchema currentVersion current = .ok target ↔
      ∃ column, migration = addNullableColumn initialSchemaVersion addNullableColumnSchemaVersion
          column ∧
        currentVersion = initialSchemaVersion ∧ column.nullable = true ∧
        (∀ field ∈ current.fields, field.name ≠ column.name) ∧
        target = ⟨current.fields ++ [column], current.metadata⟩ := by
  cases migration with
  | addNullableColumn source goal column =>
    simp only [targetSchema, validateSchemaVersion, bind_eq_ok, ensure_eq_ok, pure_eq_ok]
    simp only [sourceVersion, targetVersion]
    constructor
    · rintro ⟨_, _, _, hsource, _, _, _, ⟨rfl, rfl⟩, _, hnull, _, hnew, rfl⟩
      exact ⟨column, rfl, hsource.symm, hnull, by simpa using hnew, rfl⟩
    · rintro ⟨column', hmig, rfl, hnull, hnew, rfl⟩
      cases hmig
      exact ⟨(), .inl rfl, (), rfl, (), by decide, (), ⟨rfl, rfl⟩, (), hnull, (),
        by simpa using hnew, rfl⟩
  | changeColumnType source goal column type =>
    simp [targetSchema]

end SchemaMigration

end StrataDB.Storage
