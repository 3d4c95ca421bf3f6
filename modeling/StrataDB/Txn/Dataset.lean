import StrataDB.Lib.Effect
import StrataDB.Txn.Catalog
import StrataDB.Txn.CommitLog
import StrataDB.Txn.RowId

/-! The dataset handle (`txn/src/dataset.rs`): the store with the state that all
clones of one handle share, and the calls that make a handle. -/

namespace StrataDB.Txn

open Lib Arrow Index Storage

/-- A handle's shared state: the objects, the current snapshot, the commit log
under the publication lock, and the three counters. -/
structure Dataset where
  store : Store
  current : Snapshot
  log : CommitLog
  nextRowId : ℕ
  writeAttemptCounter : ℕ
  lastIssuedTimestamp : ℤ
  deriving DecidableEq

/-- A computation on a handle. -/
abbrev Action (α : Type) := Effect Dataset TxnError α

def commitLogCapacity : ℕ := 2048

def maxReasonableRowIdCapacity : ℕ := 1000000000

/-- The wall clock in microseconds since the epoch, as `i64`; `none` is a time
before the epoch. -/
def readClock (clock : Option ℕ) : Except TxnError ℤ := do
  let now ← orElse clock (.clock "second time provided was later than self")
  ensure (now < 2 ^ 63) .tryFromInt
  return (now : ℤ)

/-- `issue_timestamp`: never below what was issued before. -/
def issueTimestamp (clock : Option ℕ) : Action ℤ := fun d =>
  match readClock clock with
  | .error e => (.error e, d)
  | .ok now =>
    let issued := max d.lastIssuedTimestamp now
    (.ok issued, { d with lastIssuedTimestamp := issued })

/-- `put` through the handle's storage. -/
def putObject (key : Key) (object : Object) (fault : Fault) : Action Unit := fun d =>
  match d.store.put key object fault with
  | (store, .ok ()) => (.ok (), { d with store })
  | (store, .error e) => (.error (.storage e), { d with store })

/-- A local file-system call that may fail and changes no object. -/
def localCall (fails : Bool) (what : String) : Action Unit :=
  Effect.lift (ensure (fails = false) (.storage (.io what)))

/-- `write_attempt_counter.fetch_add(1)`. -/
def nextAttempt : Action ℕ := fun d =>
  (.ok d.writeAttemptCounter, { d with writeAttemptCounter := d.writeAttemptCounter + 1 })

/-- `RowIdAllocator::claim` on the handle's allocator. -/
def claimRowIds (count : ℕ) (faults : ℕ → ReservationFaults) : Action RowIdRange := fun d =>
  match claim d.store d.nextRowId count faults with
  | (store, nextRowId, result) => (result, { d with store, nextRowId })

/-- `publish_candidate_manifest`: the error to report after the manifest has
become visible, if its durability was not acknowledged. -/
def publishCandidateManifest (P : Platform) (m : Manifest) (fault : Fault) :
    Action (Option TxnError) := fun d =>
  match commitManifestWith P.format d.store m fault with
  | (store, .ok ()) => (.ok none, { d with store })
  | (store, .error (.publicationIndeterminate key)) =>
    (.ok (some (.indeterminateManifestPublication m.version (.publicationIndeterminate key))),
      { d with store })
  | (store, .error e) => (.error (.storage e), { d with store })

/-- `complete_visible_publication`: log entry, current snapshot, then the
outcome. -/
def completeVisiblePublication {α : Type} (snapshot : Snapshot) (writeSet : List ℕ)
    (indeterminate : Option TxnError) (result : α) : Action α := fun d =>
  (match indeterminate with
    | some e => .error e
    | none => .ok result,
    { d with log := d.log.push snapshot.version writeSet, current := snapshot })

/-! ### Making a handle -/

/-- `seed_write_attempt_counter`: a manifest from before the counter existed is
read for the highest attempt its file names carry. -/
def seedWriteAttemptCounter (m : Manifest) : Except TxnError ℕ :=
  if m.nextAttemptId ≠ 0 ∨ m.dataFiles = [] then .ok m.nextAttemptId
  else match (m.dataNames.filterMap ObjectName.attempt?).max? with
    | none => .ok 0
    | some highest => checkedAdd highest 1 s!"legacy attempt-id prefix {highest} + 1"

/-- The snapshot of an empty dataset. -/
def Snapshot.empty (m : Manifest) (schema : Schema) : Snapshot where
  version := m.version
  schema := schema
  manifest := m
  index := []
  tombstones := []

/-- Faults met while a dataset is created. -/
structure CreateFaults where
  anchorFails : Bool := false
  reservation : ReservationFaults := {}
  publication : Fault := .none

/-- `Dataset::create_with_commit_log_capacity_and_storage`. -/
def createDataset (P : Platform) (store : Store) (schema : Schema) (capacity : ℕ)
    (clock : Option ℕ) (faults : CreateFaults) : Store × Except TxnError Dataset :=
  let checks : Except TxnError ℤ := do
    validateSchema schema
    let existing ← lift .storage (readCurrent P.format store)
    ensure (existing = none) .alreadyExists
    ensure (faults.anchorFails = false) (.storage (.io "directory sync failed"))
    readClock clock
  match checks with
  | .error e => (store, .error e)
  | .ok now =>
    let committedAtUs := max 0 now
    let m := { Manifest.emptyWithSchema schema with committedAtUs }
    match persistRowIdHighWaterAtLeast store 0 faults.reservation with
    | (store, .error (.definite e)) => (store, .error (.storage e))
    | (store, .error (.possiblyPublished _ e)) => (store, .error (.storage e))
    | (store, .ok _) =>
      match commitManifestWith P.format store m faults.publication with
      | (store, .error (.publicationIndeterminate key)) =>
        (store, .error (.indeterminateManifestPublication m.version
          (.publicationIndeterminate key)))
      | (store, .error e) => (store, .error (.storage e))
      | (store, .ok ()) =>
        match readRowIdHighWater store with
        | .error e => (store, .error (.storage e))
        | .ok durable =>
          (store, .ok {
            store
            current := Snapshot.empty m schema
            log := CommitLog.new capacity
            nextRowId := max m.nextRowId (durable.getD 0)
            writeAttemptCounter := m.nextAttemptId
            lastIssuedTimestamp := committedAtUs })

/-- `Dataset::open_inner_with_storage`. -/
def openDataset (P : Platform) (store : Store) : Except TxnError Dataset := do
  let existing ← lift .storage (readCurrent P.format store)
  let m ← orElse existing .notFound
  validateSchema m.schema
  let highWater ← lift .storage (readRowIdHighWater store)
  let durable ← orElse highWater (.storage .missingRowIdHighWater)
  let floor := max m.nextRowId durable
  ensure (floor ≤ maxReasonableRowIdCapacity)
    (.unreasonableCapacity floor maxReasonableRowIdCapacity)
  let index ← validateCatalog P store m m.schema
  let writeAttemptCounter ← seedWriteAttemptCounter m
  return {
    store
    current := {
      version := m.version
      schema := m.schema
      manifest := m
      index
      tombstones := m.tombstones }
    log := CommitLog.new commitLogCapacity
    nextRowId := floor
    writeAttemptCounter
    lastIssuedTimestamp := m.commitTimeHighWater }

end StrataDB.Txn
