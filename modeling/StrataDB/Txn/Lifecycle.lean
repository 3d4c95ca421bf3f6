import Mathlib.Data.List.Sort
import StrataDB.Txn.Transaction

/-! What the lifecycle operations share (`txn/src/lifecycle.rs`,
`txn/src/retention.rs`): the inventory of the store, the objects a manifest
lists, the versions that must stay, and the loop that deletes. -/

namespace StrataDB.Txn

open Lib Arrow Index Storage

/-- Bytes of an object as the backend lists it. -/
def objectSize (P : Platform) : Object → ℕ
  | .manifest m => P.format.manifestBytes m
  | .rows batch => P.kernels.ipcByteLen batch
  | .segment segment => segment.byteLen
  | .reservation _ => 12

def sizeOf (P : Platform) (store : Store) (key : Key) : ℕ :=
  ((store.get key).map (objectSize P)).getD 0

/-- `index_manifest_objects`: the listed versions in ascending order. -/
def listedVersions (store : Store) : List ℕ := store.versions.insertionSort (· ≤ ·)

/-- `read_manifest_at_key_with_byte_count_and_size_with` on a listed version. -/
def readListed (P : Platform) (store : Store) (version : ℕ) : Except TxnError Manifest :=
  lift .storage (readManifest P.format store version)

/-- `reachable_keys`: the objects a manifest lists, none of them twice. -/
def reachableKeys (m : Manifest) : Except TxnError (List ObjectName) := do
  go [] m.objectNames
  return m.objectNames
where
  go (seen : List ObjectName) : List ObjectName → Except TxnError Unit
    | [] => .ok ()
    | name :: rest => do
      ensure (name ∉ seen)
        (.storage (.corruptManifest m.key s!"duplicate reachable object key: data/{name}"))
      go (name :: seen) rest

/-- The objects listed by the manifests of the given versions. -/
def reachableFrom (P : Platform) (store : Store) (versions : List ℕ) :
    Except TxnError (List ObjectName) := do
  let keys ← versions.mapM fun version => do
    let m ← readListed P store version
    reachableKeys m
  return keys.flatten

/-- A protected version: its manifest must be listed, and its catalog must pass
recovery's checks under the schema given. Returns the objects it lists. -/
def protectVersion (P : Platform) (store : Store) (logical : Schema) (version : ℕ) :
    Except TxnError (List ObjectName) := do
  ensure (version ∈ store.versions)
    (.storage (.corruptManifest (.manifest version) "protected manifest is missing from inventory"))
  let m ← readListed P store version
  let _ ← validateCatalog P store m logical
  return m.objectNames

def protectVersions (P : Platform) (store : Store) (logical : Schema) (versions : List ℕ) :
    Except TxnError (List ObjectName) := do
  let keys ← versions.mapM (protectVersion P store logical)
  return keys.flatten

/-- A key to unlink with its listed size, or the error its turn ends the loop with. -/
abbrev Candidate := Except TxnError (Key × ℕ)

/-- `delete` through the handle's storage. -/
def deleteObject (key : Key) (fault : Fault) : Action Unit := fun d =>
  match d.store.delete key fault with
  | (store, .ok ()) => (.ok (), { d with store })
  | (store, .error e) => (.error (.storage e), { d with store })

/-- The deletion loop of compaction and vacuum: how many objects and bytes went. -/
def deleteCandidates (faults : ℕ → Fault) :
    ℕ → ℕ → ℕ → List Candidate → Action (ℕ × ℕ)
  | _, objects, bytes, [] => pure (objects, bytes)
  | i, objects, bytes, candidate :: rest => do
    let (key, size) ← Effect.lift candidate
    deleteObject key (faults i)
    let objects ← Effect.lift (checkedAdd objects 1 "objects_deleted")
    let bytes ← Effect.lift (checkedAdd bytes size "bytes_deleted")
    deleteCandidates faults (i + 1) objects bytes rest

/-- `live_snapshot_versions`: each held version once, in ascending order, the
current one among them. -/
def liveVersions (current : Snapshot) (held : List Snapshot) : List ℕ :=
  ((current :: held).map Snapshot.version).dedup.insertionSort (· ≤ ·)

end StrataDB.Txn
