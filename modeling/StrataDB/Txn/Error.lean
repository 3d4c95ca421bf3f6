import StrataDB.Storage.Manifest

/-! `TxnError` (`txn/src/error.rs`), with the data each variant reports. -/

namespace StrataDB.Txn

open Arrow Index Storage

inductive TxnError
  | storage (error : StorageError)
  | arrow (error : ArrowError)
  | index (error : IndexError)
  | alreadyExists
  | notFound
  | tryFromInt
  | nonFiniteVectorComponent (rowId : ℕ)
  | manifestOverflow (what : String)
  | rowIdReservationDurability (last : ℕ) (source : StorageError)
  | indeterminateManifestPublication (manifestVersion : ℕ) (source : StorageError)
  | unreasonableCapacity (capacity maximum : ℕ)
  | corruptSegment (reason : String)
  | batchSchemaMismatch (expected actual : String)
  | rowNotFound (rowId : ℕ)
  | rowNotLive (rowId : ℕ)
  | duplicateTarget (rowId : ℕ)
  | invalidUpdateShape (actualRows : ℕ)
  | conflict (contestedRowIds : List ℕ)
  | insufficientHistory (baseVersion oldestRetainedVersion latestVersion : ℕ)
  | rowIdRangeMismatch (claimedEnd actualEnd : ℕ)
  | reservedColumnName (name : String)
  | clock (reason : String)
  | invalidRetentionPolicy
  | invalidCompactionPolicy
  deriving DecidableEq

/-- Run a computation of a lower layer under the error type of this one. -/
def lift {ε α : Type} (wrap : ε → TxnError) : Except ε α → Except TxnError α
  | .ok a => .ok a
  | .error e => .error (wrap e)

@[simp] theorem lift_eq_ok {ε α : Type} {wrap : ε → TxnError} {x : Except ε α} {a : α} :
    lift wrap x = .ok a ↔ x = .ok a := by
  cases x <;> simp [lift]

/-- `u64::MAX` bounds versions and row ids. -/
def u64Bound : ℕ := 2 ^ 64

/-- `checked_add` on 64-bit counters. -/
def checkedAdd (a b : ℕ) (what : String) : Except TxnError ℕ :=
  if a + b < u64Bound then .ok (a + b) else .error (.manifestOverflow what)

@[simp] theorem checkedAdd_eq_ok {a b n : ℕ} {what : String} :
    checkedAdd a b what = .ok n ↔ n = a + b ∧ a + b < u64Bound := by
  unfold checkedAdd
  split <;> simp_all [eq_comm]

end StrataDB.Txn
