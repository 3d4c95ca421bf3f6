import StrataDB.Txn.Lifecycle

/-! Manifest retention (`txn/src/retention.rs`, `txn/src/retention_executor.rs`)
and vacuum (`txn/src/vacuum.rs`). -/

namespace StrataDB.Txn

open Lib Arrow Index Storage

/-- `latest_versions` of an ascending list. -/
def latestVersions (versions : List ℕ) (keep : ℕ) : List ℕ :=
  versions.drop (versions.length - keep)

/-- A retained version: its manifest must be listed. Returns the objects it lists. -/
def retainVersion (P : Platform) (store : Store) (version : ℕ) :
    Except TxnError (List ObjectName) := do
  ensure (version ∈ store.versions)
    (.storage (.corruptManifest (.manifest version) "retained manifest is missing from inventory"))
  let m ← readListed P store version
  reachableKeys m

structure RetentionPlan where
  observedVersion : ℕ
  activeSnapshotVersions : List ℕ
  retainedManifestVersions : List ℕ
  retainedDataObjectCount : ℕ
  retainedDataBytes : ℕ
  eligibleManifestVersions : List ℕ
  eligibleDataObjects : List (Key × ℕ)
  deriving DecidableEq

/-- `classify_data_objects` over the listed names: count and bytes of the
retained ones, and the others that an older manifest lists. -/
def classifyDataObjects (P : Platform) (store : Store) (retained older : List ObjectName) :
    ℕ → ℕ → List ObjectName → Except TxnError (ℕ × ℕ × List (Key × ℕ))
  | count, bytes, [] => .ok (count, bytes, [])
  | count, bytes, name :: rest => do
    let size := sizeOf P store (.data name)
    if name ∈ retained then
      let count ← checkedAdd count 1 "retained_data_object_count"
      let bytes ← checkedAdd bytes size "retained_data_bytes"
      classifyDataObjects P store retained older count bytes rest
    else
      let (count, bytes, eligible) ← classifyDataObjects P store retained older count bytes rest
      return (count, bytes, if name ∈ older then (.data name, size) :: eligible else eligible)

/-- `ensure_reachable_objects_are_listed`. -/
def ensureReachableObjectsAreListed (store : Store) (reachable : List ObjectName) :
    Except TxnError Unit :=
  reachable.forM fun name =>
    ensure (name ∈ store.dataObjects)
      (.storage (.corruptManifest (.data name)
        s!"reachable object is missing from inventory: data/{name}"))

/-- `build_plan`. -/
def buildPlan (P : Platform) (keep : ℕ) (current : Snapshot) (held : List Snapshot)
    (store : Store) : Except TxnError RetentionPlan := do
  ensure (keep ≠ 0) .invalidRetentionPolicy
  let active := liveVersions current held
  let listed := listedVersions store
  let retained := (latestVersions listed keep ++ active).dedup.insertionSort (· ≤ ·)
  let retainedKeys ← retained.mapM (retainVersion P store)
  let eligible := listed.filter fun version => version < current.version ∧ version ∉ retained
  let olderKeys ← reachableFrom P store eligible
  let (count, bytes, objects) ← classifyDataObjects P store retainedKeys.flatten olderKeys 0 0
    store.dataObjects
  ensureReachableObjectsAreListed store (retainedKeys.flatten ++ olderKeys)
  return {
    observedVersion := current.version
    activeSnapshotVersions := active
    retainedManifestVersions := retained
    retainedDataObjectCount := count
    retainedDataBytes := bytes
    eligibleManifestVersions := eligible
    eligibleDataObjects := objects.insertionSort fun a b => a.1.render ≤ b.1.render }

/-- `build_manifest_prune_authority`: the versions a prune may delete. -/
def buildManifestPruneAuthority (P : Platform) (keep : ℕ) (current : Snapshot)
    (held : List Snapshot) (store : Store) : Except TxnError (List ℕ) := do
  let plan ← buildPlan P keep current held store
  plan.eligibleManifestVersions.forM fun version =>
    ensure (version ∈ store.versions)
      (.storage (.corruptManifest (.manifest version)
        "eligible manifest is missing from inventory"))
  return plan.eligibleManifestVersions

/-- `manifest_is_old_enough_for_age_prune`. -/
def manifestIsOldEnough (committedAtUs now : ℤ) (maxAgeUs : ℕ) : Except TxnError Bool := do
  if committedAtUs = 0 then return false
  ensure (maxAgeUs < 2 ^ 63) .tryFromInt
  return decide ((maxAgeUs : ℤ) ≤ now - committedAtUs)

/-- `build_age_manifest_prune_authority`. -/
def buildAgeManifestPruneAuthority (P : Platform) (keep maxAgeUs : ℕ) (clock : Option ℕ)
    (current : Snapshot) (held : List Snapshot) (store : Store) :
    Except TxnError (List ℕ) := do
  ensure (keep ≠ 0) .invalidRetentionPolicy
  let listed := listedVersions store
  let kept := liveVersions current held ++ latestVersions listed keep
  let now ← readClock clock
  let candidates := listed.filter fun version => version < current.version ∧ version ∉ kept
  let old ← candidates.mapM fun version => do
    let m ← readListed P store version
    let isOld ← manifestIsOldEnough m.committedAtUs now maxAgeUs
    return if isOld then some version else none
  return old.reduceOption

/-- The checked sum of the listed sizes of the given versions. -/
def totalManifestBytes (P : Platform) (store : Store) : ℕ → List ℕ → Except TxnError ℕ
  | total, [] => .ok total
  | total, version :: rest => do
    let total ← checkedAdd total (sizeOf P store (.manifest version)) "deleted_manifest_bytes"
    totalManifestBytes P store total rest

structure ManifestPruneReport where
  observedVersion : ℕ
  deletedManifestVersions : List ℕ
  deletedManifestBytes : ℕ
  deriving DecidableEq

/-- `delete_authorized_manifests`: the bytes are added up first. -/
def deleteAuthorizedManifests (P : Platform) (versions : List ℕ) (faults : ℕ → Fault) :
    Action ManifestPruneReport := do
  let d ← Effect.reads id
  let bytes ← Effect.lift (totalManifestBytes P d.store 0 versions)
  let _ ← Effect.forEach (fun (version, i) => deleteObject (.manifest version) (faults i))
    versions.zipIdx
  return ⟨d.current.version, versions, bytes⟩

/-- `Dataset::prune_manifests`. -/
def pruneManifests (P : Platform) (keep : ℕ) (held : List Snapshot) (faults : ℕ → Fault) :
    Action ManifestPruneReport := do
  let d ← Effect.reads id
  let versions ← Effect.lift (buildManifestPruneAuthority P keep d.current held d.store)
  deleteAuthorizedManifests P versions faults

/-! ### Vacuum -/

structure VacuumReport where
  observedVersion : ℕ
  objectsDeleted : ℕ
  bytesDeleted : ℕ
  deriving DecidableEq

/-- The deletions of `vacuum_inner`: held versions are validated under the
current schema, and what any manifest lists is kept. Every name the database
gives a data object is a recognised one. -/
def vacuumPlan (P : Platform) (current : Snapshot) (held : List Snapshot) (store : Store) :
    Except TxnError (List Candidate) := do
  let kept ← protectVersions P store current.schema (liveVersions current held)
  let listed ← reachableFrom P store (listedVersions store)
  return (store.dataObjects.filter fun name => name ∉ kept ++ listed).map fun name =>
    .ok (.data name, sizeOf P store (.data name))

/-- `Dataset::vacuum`. -/
def vacuum (P : Platform) (held : List Snapshot) (faults : ℕ → Fault) : Action VacuumReport := do
  let d ← Effect.reads id
  let candidates ← Effect.lift (vacuumPlan P d.current held d.store)
  let (objectsDeleted, bytesDeleted) ← deleteCandidates faults 0 0 0 candidates
  return ⟨d.current.version, objectsDeleted, bytesDeleted⟩

end StrataDB.Txn
