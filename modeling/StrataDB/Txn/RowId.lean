import StrataDB.Storage.Backend
import StrataDB.Txn.Error

/-! Row-id allocation (`txn/src/row_id.rs`) over immutable reservation records
(`storage/src/row_id_high_water.rs`). A claim first makes the end of its range
visible as a record, then hands the range out. -/

namespace StrataDB.Txn

open Lib Storage

/-- `RowIdRange`: the ids `base, …, base + len - 1`. -/
structure RowIdRange where
  base : ℕ
  len : ℕ
  deriving DecidableEq

/-- `read_row_id_high_water_with`: the greatest record, every one of which must
hold the end its name says. -/
def readRowIdHighWater (s : Store) : Except StorageError (Option ℕ) := do
  s.reservations.forM fun last =>
    ensure (s.get (.reservation last) = some (.reservation last))
      (.corruptDataFile (.reservation last) "record filename end does not match payload end")
  return s.reservations.max?

/-- Storage faults met while one record is persisted. -/
structure ReservationFaults where
  readFails : Bool := false
  put : Fault := .none
  rereadFails : Bool := false
  deriving DecidableEq

inductive HighWaterPersistenceError
  | definite (source : StorageError)
  | possiblyPublished (last : ℕ) (source : StorageError)
  deriving DecidableEq

def readOrFail (s : Store) (fails : Bool) : Except StorageError (Option ℕ) :=
  if fails then .error (.io "list failed") else readRowIdHighWater s

/-- `persist_row_id_high_water_at_least_with`. -/
def persistRowIdHighWaterAtLeast (s : Store) (requestedEnd : ℕ) (faults : ReservationFaults) :
    Store × Except HighWaterPersistenceError ℕ :=
  match readOrFail s faults.readFails with
  | .error e => (s, .error (.definite e))
  | .ok observed =>
    match observed.filter (requestedEnd ≤ ·) with
    | some last => (s, .ok last)
    | none =>
      match s.putIfAbsent (.reservation requestedEnd) (.reservation requestedEnd) faults.put with
      | (s', .ok ()) => (s', .ok requestedEnd)
      | (s', .error (.alreadyExists key)) =>
        match readOrFail s' faults.rereadFails with
        | .error e => (s', .error (.definite e))
        | .ok observed =>
          match observed.filter (requestedEnd ≤ ·) with
          | some last => (s', .ok last)
          | none => (s', .error (.definite (.corruptDataFile key
              "immutable row-id high-water target existed without a valid matching record")))
      | (s', .error source) =>
        match readOrFail s' faults.rereadFails with
        | .error e => (s', .error (.definite e))
        | .ok observed =>
          match observed.filter (requestedEnd ≤ ·) with
          | some last => (s', .error (.possiblyPublished last source))
          | none => (s', .error (.definite source))

/-- `RowIdAllocator::claim`, with at most `fuel` rounds of its loop: the store,
the counter and the range. A round that finds a record above its own end moves
the counter there and starts over; `none` is an exhausted loop. -/
def claimWithin (count : ℕ) (faults : ℕ → ReservationFaults) :
    ℕ → Store → ℕ → Store × ℕ × Option (Except TxnError RowIdRange)
  | 0, s, next => (s, next, none)
  | fuel + 1, s, next =>
    match checkedAdd next count s!"next_row_id {next} + {count}" with
    | .error e => (s, next, some (.error e))
    | .ok last =>
      match persistRowIdHighWaterAtLeast s last (faults fuel) with
      | (s', .ok persisted) =>
        if persisted = last then (s', last, some (.ok ⟨next, count⟩))
        else claimWithin count faults fuel s' (max next persisted)
      | (s', .error (.possiblyPublished observed source)) =>
        (s', max next observed, some (.error (.rowIdReservationDurability observed source)))
      | (s', .error (.definite source)) => (s', next, some (.error (.storage source)))

/-- Rounds the loop of `claim` can need: after one round the counter is at the
greatest record. -/
def claimRounds : ℕ := 2

def claim (s : Store) (next count : ℕ) (faults : ℕ → ReservationFaults) :
    Store × ℕ × Except TxnError RowIdRange :=
  match claimWithin count faults claimRounds s next with
  | (s', next', some result) => (s', next', result)
  | (s', next', none) => (s', next', .error (.storage (.io "claim did not settle")))

end StrataDB.Txn
