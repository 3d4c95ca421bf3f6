import StrataDB.Txn.Snapshot

/-! Recovery's checks of a manifest against the objects it lists (validators of
`txn/src/dataset.rs`). The same checks guard `open`, the migration, and the
versions that compaction and vacuum protect. -/

namespace StrataDB.Txn

open Lib Arrow Index Storage

/-- `corrupt_catalog`. -/
def corruptCatalog (m : Manifest) (reason : String) : TxnError :=
  .storage (.corruptManifest m.key reason)

/-- `stored_type_matches_owned_schema`: the owned type, or a dictionary of it. -/
def storedTypeMatchesOwnedSchema (stored owned : DataType) : Bool :=
  stored == owned ||
    match stored with
    | .dictionary _ value => value == owned
    | _ => false

def storedFieldMatches (stored owned : Field) : Bool :=
  stored.name == owned.name && stored.nullable == owned.nullable &&
    stored.metadata == owned.metadata &&
    storedTypeMatchesOwnedSchema stored.dataType owned.dataType

/-- A hidden column as stored; only `_timestamp` may be dictionary encoded. -/
def hiddenFieldMatches (stored expected : Field) : Bool :=
  stored.name == expected.name && !stored.nullable &&
    if expected.name = timestampColumn then
      storedTypeMatchesOwnedSchema stored.dataType expected.dataType
    else stored.dataType == expected.dataType

/-- `validate_physical_batch_schema`. -/
def validatePhysicalBatchSchema (m : Manifest) (logical : Schema) (physical : Schema)
    (file : ObjectName) : Except TxnError Unit := do
  ensure (physical.metadata = logical.metadata)
    (corruptCatalog m s!"data file {file} does not preserve owned schema metadata")
  let expectedLen := logical.fields.length + hiddenColumns.length
  ensure (physical.fields.length = expectedLen)
    (corruptCatalog m
      s!"data file {file} has {physical.fields.length} schema fields; expected {expectedLen}")
  (physical.fields.zip logical.fields).forM fun (stored, owned) =>
    ensure (storedFieldMatches stored owned = true)
      (corruptCatalog m s!"data file {file} does not preserve owned field \"{owned.name}\"")
  ((physical.fields.drop logical.fields.length).zip [rowIdField, timestampField]).forM
    fun (stored, expected) =>
      ensure (hiddenFieldMatches stored expected = true)
        (corruptCatalog m s!"data file {file} has an invalid physical {expected.name} column")

/-- `catalog_row_id_range`. -/
def catalogRowIdRange (m : Manifest) (entry : DataFileEntry) :
    Except TxnError (Option (ℕ × ℕ)) := do
  if entry.rowCount = 0 then
    ensure (entry.rowIdRange = none)
      (corruptCatalog m s!"empty data file {entry.name} has a row_id_range")
    return none
  let (first, last) ← orElse entry.rowIdRange
    (corruptCatalog m s!"non-empty data file {entry.name} is missing row_id_range")
  ensure (first + (entry.rowCount - 1) < u64Bound)
    (corruptCatalog m
      s!"data file {entry.name} row_id_range [{first}, {last}] overflows for row_count {entry.rowCount}")
  ensure (last = first + (entry.rowCount - 1))
    (corruptCatalog m
      s!"data file {entry.name} has row_id_range [{first}, {last}] incompatible with row_count {entry.rowCount}")
  return some (first, last)

/-- The loop of `validate_data_file_row_ids`: ids count up from the start of the
range, and no id is owned twice. Returns the rows owned so far. -/
def checkRowIds (m : Manifest) (file : ObjectName) (range : Option (ℕ × ℕ)) :
    ℕ → List ℕ → List ℕ → Except TxnError (List ℕ)
  | _, owned, [] => .ok owned
  | offset, owned, rowId :: rest => do
    let (first, _) ← orElse range (corruptCatalog m s!"empty file {file} has row IDs")
    ensure (first + offset < u64Bound)
      (corruptCatalog m
        s!"data file {file} row_id_range [{first}, ..] overflows at offset {offset}")
    ensure (rowId = first + offset)
      (corruptCatalog m
        s!"data file {file} has row_id {rowId} at offset {offset}; expected {first + offset}")
    ensure (rowId ∉ owned)
      (corruptCatalog m s!"row_id {rowId} is owned by more than one data file")
    checkRowIds m file range (offset + 1) (owned ++ [rowId]) rest

/-- `validate_data_file_row_ids`. -/
def validateDataFileRowIds (m : Manifest) (entry : DataFileEntry) (batch : RecordBatch)
    (range : Option (ℕ × ℕ)) (owned : List ℕ) : Except TxnError (List ℕ) := do
  let cells ← typedColumn batch rowIdColumn .uint64 (missingField rowIdColumn)
    (corruptCatalog m s!"data file {entry.name} has non-UInt64 _row_id")
  ensure (cells.all (fun c => !c.isNull) = true)
    (corruptCatalog m s!"data file {entry.name} has null _row_id values")
  checkRowIds m entry.name range 0 owned (cells.map Cell.toRowId)

/-- One file of `validate_data_files_with_owner`. -/
def validateDataFile (P : Platform) (store : Store) (m : Manifest) (logical : Schema)
    (entry : DataFileEntry) (owned : List ℕ) : Except TxnError (List ℕ) := do
  let batch ← readBatch store entry.name
  let corrupt reason := TxnError.storage (.corruptDataFile (.data entry.name) reason)
  let actualLen := P.kernels.ipcByteLen batch
  ensure (actualLen = entry.byteLen)
    (corrupt s!"byte_len is {actualLen} on disk but catalog records {entry.byteLen}")
  let actualCrc := P.kernels.ipcCrc32c batch
  ensure (actualCrc = entry.crc32c)
    (corrupt s!"crc32c is {actualCrc} on disk but catalog records {entry.crc32c}")
  validatePhysicalBatchSchema m logical batch.schema entry.name
  ensure (batch.numRows = entry.rowCount)
    (corrupt s!"row_count is {batch.numRows} on disk but catalog records {entry.rowCount}")
  let range ← catalogRowIdRange m entry
  validateDataFileRowIds m entry batch range owned

/-- `validate_data_files_with_owner`: the row ids the files own. -/
def validateDataFiles (P : Platform) (store : Store) (m : Manifest) (logical : Schema) :
    Except TxnError (List ℕ) :=
  go [] [] m.dataFiles
where
  go (seen : List ObjectName) (owned : List ℕ) : List DataFileEntry → Except TxnError (List ℕ)
    | [] => .ok owned
    | entry :: rest => do
      ensure (entry.name ∉ seen)
        (corruptCatalog m s!"data file {entry.name} appears more than once in the manifest")
      let owned ← validateDataFile P store m logical entry owned
      go (entry.name :: seen) owned rest

/-- `validate_tombstones`: each one owned, none twice. -/
def validateTombstones (m : Manifest) (owned : List ℕ) : Except TxnError Unit :=
  go [] m.tombstones
where
  go (seen : List ℕ) : List ℕ → Except TxnError Unit
    | [] => .ok ()
    | rowId :: rest => do
      ensure (rowId ∈ owned)
        (corruptCatalog m s!"tombstone row_id {rowId} has no row-file owner")
      ensure (rowId ∉ seen) (corruptCatalog m s!"tombstone row_id {rowId} appears more than once")
      go (rowId :: seen) rest

/-- The bytes of a listed segment, parsed. -/
def readSegment (store : Store) (name : ObjectName) : Except TxnError Segment :=
  match store.get (.data name) with
  | some (.segment segment) => .ok segment
  | some _ => .error (.corruptSegment s!"segment {name} does not parse")
  | none => .error (.storage (.notFound (.data name)))

/-- A segment against what the manifest records about it. -/
def validateSegment (entry : SegmentEntry) (segment : Segment) : Except TxnError Unit := do
  ensure (segment.byteLen = entry.byteLen)
    (.corruptSegment
      s!"segment {entry.name} is {segment.byteLen} bytes on disk but the manifest records {entry.byteLen}")
  ensure (segmentFormatVersion = entry.formatVersion)
    (.corruptSegment
      s!"segment {entry.name} has format_version {segmentFormatVersion} on disk but the manifest records {entry.formatVersion}")
  ensure (segment.nodeCount = entry.vectorCount)
    (.corruptSegment
      s!"segment {entry.name} has {segment.nodeCount} vectors on disk but the manifest records {entry.vectorCount}")
  ensure (segment.dimension = entry.dimension)
    (.corruptSegment
      s!"segment {entry.name} has dimension {segment.dimension} on disk but the manifest records {entry.dimension}")
  ensure (segment.rowIdRange = (entry.rowIdMin, entry.rowIdMax))
    (.corruptSegment
      s!"segment {entry.name} has a row-id range on disk other than the manifest records [{entry.rowIdMin}, {entry.rowIdMax}]")

/-- Row ids of one segment: owned by a file, in no earlier segment. Returns the
vector rows met so far. -/
def checkVectorRows (name : ObjectName) (owned : List ℕ) :
    List ℕ → List ℕ → Except TxnError (List ℕ)
  | vectorRows, [] => .ok vectorRows
  | vectorRows, rowId :: rest => do
    ensure (rowId ∈ owned) (.corruptSegment s!"segment {name} row_id {rowId} has no row-file owner")
    ensure (rowId ∉ vectorRows)
      (.corruptSegment s!"duplicate vector row_id {rowId} across manifest segments")
    checkVectorRows name owned (vectorRows ++ [rowId]) rest

/-- `load_segments_with_owner`: the index parts of a manifest. -/
def loadSegments (store : Store) (m : Manifest) (owned : List ℕ) :
    Except TxnError (List (SegmentPart Stats)) :=
  go [] none [] m.segments
where
  go (seen : List ObjectName) (established : Option ℕ) (vectorRows : List ℕ) :
      List SegmentEntry → Except TxnError (List (SegmentPart Stats))
    | [] => .ok []
    | entry :: rest => do
      ensure (entry.name ∉ seen)
        (.corruptSegment s!"segment {entry.name} appears more than once in the manifest")
      let segment ← readSegment store entry.name
      validateSegment entry segment
      let expected := established.getD entry.dimension
      ensure (entry.dimension = expected)
        (.corruptSegment
          s!"segment {entry.name} has dimension {entry.dimension} but an earlier segment in this manifest already established dimension {expected}")
      let vectorRows ← checkVectorRows entry.name owned vectorRows segment.rowIds
      let parts ← go (entry.name :: seen) (some expected) vectorRows rest
      return (segment, entry.zoneMap) :: parts

/-- The three validators in a row, as every caller runs them. -/
def validateCatalog (P : Platform) (store : Store) (m : Manifest) (logical : Schema) :
    Except TxnError (List (SegmentPart Stats)) := do
  let owned ← validateDataFiles P store m logical
  validateTombstones m owned
  loadSegments store m owned

end StrataDB.Txn
