import StrataDB.Storage.Stats

/-! File-level pruning (`query/src/predicate.rs`): whether a file with given
column statistics could hold a row that matches. -/

namespace StrataDB.Query

open Storage

inductive Predicate
  | eq (column : String) (value : Value)
  | lt (column : String) (value : Value)
  | ltEq (column : String) (value : Value)
  | gt (column : String) (value : Value)
  | gtEq (column : String) (value : Value)
  | and (left right : Predicate)
  | or (left right : Predicate)
  deriving DecidableEq

/-- `columns`: those of the leaves, in order. -/
def Predicate.columns : Predicate → List String
  | .eq c _ | .lt c _ | .ltEq c _ | .gt c _ | .gtEq c _ => [c]
  | .and l r | .or l r => l.columns ++ r.columns

/-- A leaf of `should_scan_file`: missing or mistyped statistics keep the file. -/
def leafMayMatch (stats : Stats) (column : String) (value : Value)
    (test : ColumnStats → Bool) : Bool :=
  match stats.lookup column with
  | none => true
  | some s =>
    if value.discriminant ≠ s.min.discriminant ∨ value.discriminant ≠ s.max.discriminant then true
    else test s

/-- `should_scan_file`. -/
def shouldScanFile (stats : Stats) : Predicate → Bool
  | .and l r => shouldScanFile stats l && shouldScanFile stats r
  | .or l r => shouldScanFile stats l || shouldScanFile stats r
  | .eq c v => leafMayMatch stats c v fun s => s.min.le v && v.le s.max
  | .lt c v => leafMayMatch stats c v fun s => s.min.lt v
  | .ltEq c v => leafMayMatch stats c v fun s => s.min.le v
  | .gt c v => leafMayMatch stats c v fun s => v.lt s.max
  | .gtEq c v => leafMayMatch stats c v fun s => v.le s.max

end StrataDB.Query
