import Mathlib.Data.List.Sort
import StrataDB.Lib.Effect
import StrataDB.Lib.Text
import StrataDB.Storage.Backend
import StrataDB.Storage.LocalFs

/-! The lifecycle operations over objects under any keys (`txn/src/lifecycle.rs`,
`txn/src/retention.rs`, `txn/src/retention_executor.rs`, `txn/src/vacuum.rs` and the
reclamation that ends `compact_inner` in `txn/src/dataset.rs`). They tell manifests and
leftover data objects from their keys alone, so keys are texts here and the namespace may
hold any others. How the bytes of a manifest decode and how the files it lists are
validated is left to the medium. -/

namespace StrataDB.Lifecycle

open Lib Storage

inductive LifecycleError
  | invalidRetentionPolicy
  | unsafeManifestPath (name : Text)
  | corruptManifest (path : Text) (reason : String)
  | manifestOverflow (total : String)
  | clock (message : String)
  | tryFromInt
  | storage (error : FsError)
  | notFound (key : Text)
  | io (message : String)
  | invalid (reason : String)
  deriving DecidableEq

/-- What these operations read of a manifest. -/
structure Catalog where
  version : ℕ
  committedAtUs : ℤ
  dataFiles : List Text
  segments : List Text
  deriving DecidableEq

/-- The objects of a namespace, each under its key. -/
@[ext] structure Disk (β : Type) where
  objects : List (Text × β)
  nodup : (objects.map Prod.fst).Nodup

/-- What a disk's objects mean. -/
structure Medium (β : Type) where
  size : β → ℕ
  /-- `decode_manifest_with_byte_count`, or the error of a failed read. -/
  decode : Text → ℕ → β → Except LifecycleError Catalog
  /-- `validate_data_files_with_owner`, `validate_tombstones` and
  `load_segments_with_owner`. -/
  validate : Disk β → Catalog → Except LifecycleError Unit

/-- An order in which a hash set may be visited. -/
structure Visit where
  order : List Text → List Text
  perm : ∀ keys, (order keys).Perm keys

variable {β : Type}

namespace Disk

variable (disk : Disk β)

def get (key : Text) : Option β := disk.objects.lookup key

def without (keys : List Text) : Disk β where
  objects := disk.objects.filter fun o => o.1 ∉ keys
  nodup := disk.nodup.sublist (List.filter_sublist.map Prod.fst)

end Disk

/-- `StorageOwner::list`: the objects whose keys start as asked for, or the error of a
failed listing. -/
def listObjects (M : Medium β) (failure : Option LifecycleError) (start : Text)
    (disk : Disk β) : Except LifecycleError (List ObjectMeta) :=
  match failure with
  | some e => .error e
  | none => .ok ((disk.objects.filter fun o => start <+: o.1).map fun o => ⟨o.1, M.size o.2⟩)

/-- `DatasetKey::new` and `StorageOwner::delete`, which may fail before or after the object
is gone. -/
def deleteKey (fault : Fault) (key : Text) : Effect (Disk β) LifecycleError Unit := fun disk =>
  match DatasetKey.new key with
  | .error e => (.error (.storage e), disk)
  | .ok _ =>
    match fault, disk.get key with
    | .early, _ => (.error (.io "unlink failed"), disk)
    | _, none => (.error (.notFound key), disk)
    | .late, some _ => (.error (.io "directory sync failed"), disk.without [key])
    | .none, some _ => (.ok (), disk.without [key])

/-- `checked_add`. -/
def checkedAdd (total : String) (current value : ℕ) : Except LifecycleError ℕ := do
  ensure (current + value < 2 ^ 64) (.manifestOverflow total)
  return current + value

/-! ### Manifests -/

def versionsDir : Text := "_versions/".toList

def dataDir : Text := "data/".toList

/-- `ListedManifest`. -/
structure ListedManifest where
  key : Text
  bytes : ℕ
  deriving DecidableEq

/-- `manifest_object_key`. -/
def manifestObjectKey (version : ℕ) : Text :=
  versionsDir ++ Text.pad 20 version ++ ".manifest".toList

/-- `validate_manifest_relative_name`. -/
def validateManifestRelativeName (name : Text) : Except LifecycleError Unit :=
  ensure (name ≠ [] ∧ (components name).all Component.isNormal = true) (.unsafeManifestPath name)

/-- `validate_listed_key`. -/
def validateListedKey (key start : Text) : Except LifecycleError Unit := do
  let relativeName ← Lib.orElse (key.dropPrefix? start) (.unsafeManifestPath key)
  validateManifestRelativeName relativeName

/-- `listed_manifest_version`: the version a key is that of a manifest for. -/
def listedManifestVersion (key : Text) : Option ℕ :=
  ((key.dropPrefix? versionsDir).bind fun name => name.dropSuffix? ".manifest".toList).bind
    (Text.parseUnsigned (2 ^ 64))

/-- The loop of `index_manifest_objects`. -/
def indexObjects (versions : List (ℕ × ListedManifest)) :
    List ObjectMeta → Except LifecycleError (List (ℕ × ListedManifest))
  | [] => .ok versions
  | object :: rest => do
    validateListedKey object.key versionsDir
    match listedManifestVersion object.key with
    | none => indexObjects versions rest
    | some version => do
      ensure (version ∉ versions.map Prod.fst)
        (.corruptManifest (manifestObjectKey version) "duplicate listed manifest version")
      indexObjects (versions ++ [(version, ⟨object.key, object.size⟩)]) rest

/-- `index_manifest_objects`: the map in the order of its keys. -/
def indexManifestObjects (objects : List ObjectMeta) :
    Except LifecycleError (List (ℕ × ListedManifest)) := do
  let versions ← indexObjects [] objects
  return versions.insertionSort fun a b => a.1 ≤ b.1

def maxManifestBytes : ℕ := 64 * 1024 * 1024

/-- `read_manifest_at_key_with_byte_count_and_size_with`. -/
def readManifestAtKey (M : Medium β) (disk : Disk β) (version : ℕ) (listed : ListedManifest) :
    Except LifecycleError Catalog := do
  let _ ← (DatasetKey.new listed.key).mapError LifecycleError.storage
  ensure (listed.bytes ≤ maxManifestBytes) (.corruptManifest listed.key
    s!"manifest contains {listed.bytes} bytes; maximum is {maxManifestBytes}")
  let contents ← Lib.orElse (disk.get listed.key) (.notFound listed.key)
  M.decode listed.key version contents

/-- `manifest_data_key`. -/
def manifestDataKey (name : Text) : Except LifecycleError Text := do
  validateManifestRelativeName name
  return dataDir ++ name

/-- The names a manifest lists. -/
def Catalog.names (catalog : Catalog) : List Text := catalog.dataFiles ++ catalog.segments

/-- The loops of `reachable_keys` over data files and segments; a key met twice is an
error in both. -/
def insertReachableKeys (version : ℕ) (seen : List Text) :
    List Text → Except LifecycleError (List Text)
  | [] => .ok seen
  | name :: rest => do
    let key ← manifestDataKey name
    ensure (key ∉ seen) (.corruptManifest (manifestObjectKey version)
      s!"duplicate reachable object key: {String.ofList key}")
    insertReachableKeys version (seen ++ [key]) rest

/-- `reachable_keys`. -/
def reachableKeys (catalog : Catalog) : Except LifecycleError (List Text) :=
  insertReachableKeys catalog.version [] catalog.names

/-- The keys that the listed manifests list. -/
def reachableFrom (M : Medium β) (disk : Disk β) (versions : List (ℕ × ListedManifest)) :
    Except LifecycleError (List Text) := do
  let keys ← versions.mapM fun v => do
    let catalog ← readManifestAtKey M disk v.1 v.2
    reachableKeys catalog
  return keys.flatten

/-- The manifest of a version that has to be there. -/
def manifestOf (listed : List (ℕ × ListedManifest)) (version : ℕ) (missing : String) :
    Except LifecycleError ListedManifest :=
  Lib.orElse (listed.lookup version) (.corruptManifest (manifestObjectKey version) missing)

/-- `live_snapshot_versions`, with the current version among them. -/
def liveSnapshotVersions (current : ℕ) (held : List ℕ) : List ℕ :=
  (current :: held).dedup.insertionSort (· ≤ ·)

/-! ### Retention -/

/-- `latest_versions` of versions in their order. -/
def latestVersions (versions : List ℕ) (keep : ℕ) : List ℕ :=
  versions.drop (versions.length - keep)

/-- `is_temporary_data_object`. -/
def isTemporaryDataObject (key : Text) : Bool :=
  (key.dropPrefix? dataDir).any fun name => ['.'] <+: name

/-- The loop of `classify_data_objects`. -/
def classifyDataObjects (retained older : List Text) :
    List Text → ℕ → ℕ → List ObjectMeta → Except LifecycleError (ℕ × ℕ × List ObjectMeta)
  | _, count, bytes, [] => .ok (count, bytes, [])
  | seen, count, bytes, object :: rest => do
    validateListedKey object.key dataDir
    ensure (object.key ∉ seen) (.corruptManifest object.key "duplicate listed data object")
    if object.key ∈ retained then
      let count ← checkedAdd "retained_data_object_count" count 1
      let bytes ← checkedAdd "retained_data_bytes" bytes object.size
      classifyDataObjects retained older (object.key :: seen) count bytes rest
    else
      let (count, bytes, eligible) ←
        classifyDataObjects retained older (object.key :: seen) count bytes rest
      return (count, bytes,
        if object.key ∈ older ∧ ¬ isTemporaryDataObject object.key then object :: eligible
        else eligible)

/-- `ensure_reachable_objects_are_listed`. -/
def ensureReachableObjectsAreListed (objects : List ObjectMeta) (keys : List Text) :
    Except LifecycleError Unit :=
  keys.forM fun key =>
    ensure (key ∈ objects.map ObjectMeta.key) (.corruptManifest "_versions".toList
      s!"reachable object is missing from inventory: {String.ofList key}")

structure RetentionPlan where
  observedVersion : ℕ
  activeSnapshotVersions : List ℕ
  retainedManifestVersions : List ℕ
  retainedDataObjectCount : ℕ
  retainedDataBytes : ℕ
  eligibleManifestVersions : List ℕ
  eligibleDataObjects : List ObjectMeta

/-- `build_plan`; the listings may fail. -/
def buildPlan (M : Medium β) (disk : Disk β) (listing : ℕ → Option LifecycleError)
    (keep current : ℕ) (held : List ℕ) : Except LifecycleError RetentionPlan := do
  ensure (keep ≠ 0) .invalidRetentionPolicy
  let active := liveSnapshotVersions current held
  let manifestObjects ← listObjects M (listing 0) "_versions".toList disk
  let dataObjects ← listObjects M (listing 1) "data".toList disk
  let listed ← indexManifestObjects manifestObjects
  let retained := (latestVersions (listed.map Prod.fst) keep ++ active).dedup.insertionSort (· ≤ ·)
  let retainedKeys ← retained.mapM fun version => do
    let key ← manifestOf listed version "retained manifest is missing from inventory"
    let catalog ← readManifestAtKey M disk version key
    reachableKeys catalog
  let older := listed.filter fun v => v.1 < current ∧ v.1 ∉ retained
  let olderKeys ← reachableFrom M disk older
  let (count, bytes, eligible) ←
    classifyDataObjects retainedKeys.flatten olderKeys [] 0 0 dataObjects
  ensureReachableObjectsAreListed dataObjects (retainedKeys.flatten ++ olderKeys)
  return {
    observedVersion := current
    activeSnapshotVersions := active
    retainedManifestVersions := retained
    retainedDataObjectCount := count
    retainedDataBytes := bytes
    eligibleManifestVersions := older.map Prod.fst
    eligibleDataObjects := eligible.insertionSort fun a b => a.key ≤ b.key }

/-- `build_manifest_prune_authority`: the versions to delete with their objects. -/
def buildManifestPruneAuthority (M : Medium β) (disk : Disk β)
    (listing : ℕ → Option LifecycleError) (keep current : ℕ) (held : List ℕ) :
    Except LifecycleError (List (ℕ × ListedManifest)) := do
  let plan ← buildPlan M disk listing keep current held
  let manifestObjects ← listObjects M (listing 2) "_versions".toList disk
  let listed ← indexManifestObjects manifestObjects
  plan.eligibleManifestVersions.mapM fun version => do
    let key ← manifestOf listed version "eligible manifest is missing from inventory"
    return (version, key)

/-- `i64::saturating_sub`. -/
def saturatingSub (a b : ℤ) : ℤ := max (-(2 ^ 63)) (min (2 ^ 63 - 1) (a - b))

/-- `manifest_is_old_enough_for_age_prune`. -/
def manifestIsOldEnough (committedAtUs now : ℤ) (maxAgeUs : ℕ) : Except LifecycleError Bool :=
  if committedAtUs = 0 then .ok false
  else do
    ensure (maxAgeUs < 2 ^ 63) .tryFromInt
    return decide ((maxAgeUs : ℤ) ≤ saturatingSub now committedAtUs)

/-- The time since the epoch in microseconds; none is a clock set before it. -/
def readClockUs (clock : Option ℕ) : Except LifecycleError ℤ := do
  let now ← Lib.orElse clock (.clock "second time provided was later than self")
  ensure (now < 2 ^ 63) .tryFromInt
  return (now : ℤ)

/-- `build_age_manifest_prune_authority`, which lists the manifests twice. -/
def buildAgeManifestPruneAuthority (M : Medium β) (disk : Disk β)
    (listing : ℕ → Option LifecycleError) (keep maxAgeUs : ℕ) (clock : Option ℕ) (current : ℕ)
    (held : List ℕ) : Except LifecycleError (List (ℕ × ListedManifest)) := do
  ensure (keep ≠ 0) .invalidRetentionPolicy
  let windowObjects ← listObjects M (listing 0) "_versions".toList disk
  let window ← indexManifestObjects windowObjects
  let kept := liveSnapshotVersions current held ++ latestVersions (window.map Prod.fst) keep
  let manifestObjects ← listObjects M (listing 1) "_versions".toList disk
  let listed ← indexManifestObjects manifestObjects
  let now ← readClockUs clock
  let older := listed.filter fun v => v.1 < current ∧ v.1 ∉ kept
  let old ← older.mapM fun v => do
    let catalog ← readManifestAtKey M disk v.1 v.2
    let isOld ← manifestIsOldEnough catalog.committedAtUs now maxAgeUs
    return if isOld then some v else none
  return old.reduceOption

structure ManifestPruneReport where
  observedVersion : ℕ
  deletedManifestVersions : List ℕ
  deletedManifestBytes : ℕ
  deriving DecidableEq

/-- The sum of the listed sizes. -/
def totalManifestBytes (total : ℕ) : List (ℕ × ListedManifest) → Except LifecycleError ℕ
  | [] => .ok total
  | candidate :: rest => do
    let total ← checkedAdd "deleted_manifest_bytes" total candidate.2.bytes
    totalManifestBytes total rest

/-- The loop of `delete_authorized_manifests`. -/
def deleteManifests (faults : ℕ → Fault) :
    ℕ → List (ℕ × ListedManifest) → Effect (Disk β) LifecycleError (List ℕ)
  | _, [] => pure []
  | i, candidate :: rest => do
    deleteKey (faults i) candidate.2.key
    let versions ← deleteManifests faults (i + 1) rest
    return candidate.1 :: versions

/-- `delete_authorized_manifests` and the report: the bytes are added up first. -/
def deleteAuthorizedManifests (current : ℕ) (faults : ℕ → Fault)
    (candidates : List (ℕ × ListedManifest)) :
    Effect (Disk β) LifecycleError ManifestPruneReport := do
  let bytes ← Effect.lift (totalManifestBytes 0 candidates)
  let versions ← deleteManifests faults 0 candidates
  return ⟨current, versions, bytes⟩

/-- `prune`. -/
def prune (M : Medium β) (listing : ℕ → Option LifecycleError) (faults : ℕ → Fault)
    (keep current : ℕ) (held : List ℕ) : Effect (Disk β) LifecycleError ManifestPruneReport := do
  let disk ← Effect.reads id
  let candidates ← Effect.lift (buildManifestPruneAuthority M disk listing keep current held)
  deleteAuthorizedManifests current faults candidates

/-- `prune_by_age`. -/
def pruneByAge (M : Medium β) (listing : ℕ → Option LifecycleError) (faults : ℕ → Fault)
    (keep maxAgeUs : ℕ) (clock : Option ℕ) (current : ℕ) (held : List ℕ) :
    Effect (Disk β) LifecycleError ManifestPruneReport := do
  let disk ← Effect.reads id
  let candidates ← Effect.lift
    (buildAgeManifestPruneAuthority M disk listing keep maxAgeUs clock current held)
  deleteAuthorizedManifests current faults candidates

/-! ### Reclamation -/

/-- The manifests of the live versions, each validated. -/
def protectVersions (M : Medium β) (disk : Disk β) (listed : List (ℕ × ListedManifest))
    (versions : List ℕ) : Except LifecycleError (List Text) := do
  let names ← versions.mapM fun version => do
    let key ← manifestOf listed version "protected manifest is missing from inventory"
    let catalog ← readManifestAtKey M disk version key
    M.validate disk catalog
    return catalog.names
  return names.flatten

/-- A deletion that is counted. -/
def deleteCounted (fault : Fault) (total : ℕ × ℕ) (object : ObjectMeta) :
    Effect (Disk β) LifecycleError (ℕ × ℕ) := do
  deleteKey fault object.key
  let count ← Effect.lift (checkedAdd "objects_deleted" total.1 1)
  let bytes ← Effect.lift (checkedAdd "bytes_deleted" total.2 object.size)
  return (count, bytes)

/-- The loop of `compact_inner` over the manifest-listed keys. -/
def reclaimObjects (present : List ObjectMeta) (names : List Text) (faults : ℕ → Fault) :
    ℕ → ℕ × ℕ → List Text → Effect (Disk β) LifecycleError (ℕ × ℕ)
  | _, total, [] => pure total
  | i, total, key :: rest => do
    let name ← Effect.lift (Lib.orElse (key.dropPrefix? dataDir)
      (.corruptManifest key "manifest-listed object has an invalid data prefix"))
    match present.find? fun object => object.key = key with
    | none => do
      Effect.lift (ensure (name ∉ names) (.corruptManifest key
        "protected manifest-listed data object is missing from inventory"))
      reclaimObjects present names faults (i + 1) total rest
    | some object =>
      if name ∈ names then reclaimObjects present names faults (i + 1) total rest
      else do
        let total ← deleteCounted (faults i) total object
        reclaimObjects present names faults (i + 1) total rest

/-- The end of `compact_inner`, once the new version is current: the number and the bytes
of the objects it deletes. -/
def reclaim (M : Medium β) (visit : Visit) (listing : ℕ → Option LifecycleError)
    (faults : ℕ → Fault) (current : ℕ) (held : List ℕ) :
    Effect (Disk β) LifecycleError (ℕ × ℕ) := do
  let disk ← Effect.reads id
  let manifestObjects ← Effect.lift (listObjects M (listing 0) "_versions".toList disk)
  let listed ← Effect.lift (indexManifestObjects manifestObjects)
  let names ← Effect.lift
    (protectVersions M disk listed (liveSnapshotVersions current held))
  let keys ← Effect.lift (reachableFrom M disk listed)
  let present ← Effect.lift (listObjects M (listing 1) "data".toList disk)
  Effect.lift (ensure (present.map ObjectMeta.key).Nodup
    (.corruptManifest "data".toList "duplicate listed data object key"))
  reclaimObjects present names faults 0 (0, 0) (visit.order keys.dedup)

/-! ### Vacuum -/

/-- `Path::file_name`. -/
def fileName (path : Text) : Option Text :=
  match (components path).getLast? with
  | some (.normal name) => some name
  | _ => none

/-- `Path::extension`: what follows the last dot, unless that is the first character. -/
def extension (path : Text) : Option Text :=
  (fileName path).bind fun name =>
    match (name.splitOn '.').reverse with
    | _ :: [[]] => none
    | after :: _ :: _ => some after
    | _ => none

/-- `eq_ignore_ascii_case`. -/
def eqIgnoreAsciiCase (text other : Text) : Bool := text.map Char.toLower == other.map Char.toLower

/-- The text before and after the first separator. -/
def splitOnce (separator : Char) (text : Text) : Option (Text × Text) :=
  match text.dropWhile (· ≠ separator) with
  | [] => none
  | _ :: rest => some (text.takeWhile (· ≠ separator), rest)

/-- A number below a bound, written as `to_string` does. -/
def isDecimal (bound : ℕ) (text : Text) : Bool :=
  (Text.parseUnsigned bound text).any fun value => Nat.toDigits 10 value = text

/-- `is_strata_temporary_name`. -/
def isStrataTemporaryName (path : Text) : Bool :=
  (((fileName path).bind fun name => name.dropPrefix? ".tmp-".toList).bind (splitOnce '-')).any
    fun (processId, rest) =>
      (splitOnce '-' rest).any fun (counter, finalName) =>
        finalName ≠ [] ∧ isDecimal (2 ^ 32) processId ∧ isDecimal (2 ^ 64) counter

/-- The names below `data/` that vacuum may delete. -/
def isRecognizedOrphan (name : Text) : Bool :=
  isStrataTemporaryName name ||
    (extension name).any fun text =>
      eqIgnoreAsciiCase text "arrow".toList || eqIgnoreAsciiCase text "seg".toList

/-- The name `tmp_path_for` gives. -/
def tmpName (processId counter : ℕ) (finalName : Text) : Text :=
  ".tmp-".toList ++ Nat.toDigits 10 processId ++ '-' :: Nat.toDigits 10 counter ++
    '-' :: finalName

/-- `tmp_path_for` a key: the temporary object stands next to it. -/
def tmpPathFor (processId counter : ℕ) (key : Text) : Text :=
  keyFor ((key.splitOn '/').dropLast ++
    [tmpName processId counter ((fileName key).getD "tmp".toList)])

/-- The loop of `vacuum_inner` over the listed objects. -/
def vacuumObjects (protectedKeys : List Text) (faults : ℕ → Fault) :
    ℕ → ℕ × ℕ → List ObjectMeta → Effect (Disk β) LifecycleError (ℕ × ℕ)
  | _, total, [] => pure total
  | i, total, object :: rest =>
    match object.key.dropPrefix? dataDir with
    | none => vacuumObjects protectedKeys faults (i + 1) total rest
    | some name =>
      if ¬ isRecognizedOrphan name ∨ object.key ∈ protectedKeys then
        vacuumObjects protectedKeys faults (i + 1) total rest
      else do
        let total ← deleteCounted (faults i) total object
        vacuumObjects protectedKeys faults (i + 1) total rest

structure VacuumReport where
  observedVersion : ℕ
  objectsDeleted : ℕ
  bytesDeleted : ℕ
  deriving DecidableEq

/-- `vacuum_inner`. -/
def vacuum (M : Medium β) (listing : ℕ → Option LifecycleError) (faults : ℕ → Fault)
    (current : ℕ) (held : List ℕ) : Effect (Disk β) LifecycleError VacuumReport := do
  let disk ← Effect.reads id
  let manifestObjects ← Effect.lift (listObjects M (listing 0) "_versions".toList disk)
  let listed ← Effect.lift (indexManifestObjects manifestObjects)
  let names ← Effect.lift
    (protectVersions M disk listed (liveSnapshotVersions current held))
  let keys ← Effect.lift (reachableFrom M disk listed)
  let objects ← Effect.lift (listObjects M (listing 1) "data".toList disk)
  let (count, bytes) ← vacuumObjects (names.map (dataDir ++ ·) ++ keys) faults 0 (0, 0) objects
  return ⟨current, count, bytes⟩

end StrataDB.Lifecycle
