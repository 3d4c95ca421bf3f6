import Mathlib.Data.List.AList
import Mathlib.Data.String.Basic
import StrataDB.Arrow.Batch

/-! Per-column file statistics (`storage/src/stats.rs`) and their merge into a
segment's zone map (`merge_zone_map_stats` in `txn/src/dataset.rs`). Integer and
string columns take the smallest and largest value; a float column takes them in
the total order unless its largest value is NaN, when it takes the numeric
bounds of the values that are not. -/

namespace StrataDB.Storage

open Lib Arrow

/-- A value that file statistics can bound. -/
inductive Value
  | int64 (value : ℤ)
  | float64 (value : F64)
  | utf8 (value : String)
  deriving DecidableEq

namespace Value

/-- The variant, in declaration order. -/
def discriminant : Value → ℕ
  | int64 _ => 0
  | float64 _ => 1
  | utf8 _ => 2

/-- Derived `<`; between variants it is the declaration order. -/
def lt : Value → Value → Bool
  | int64 a, int64 b => a < b
  | float64 a, float64 b => a.lt b
  | utf8 a, utf8 b => a < b
  | a, b => a.discriminant < b.discriminant

/-- Derived `≤`. -/
def le : Value → Value → Bool
  | int64 a, int64 b => a ≤ b
  | float64 a, float64 b => a.le b
  | utf8 a, utf8 b => a ≤ b
  | a, b => a.discriminant < b.discriminant

end Value

structure ColumnStats where
  min : Value
  max : Value
  deriving DecidableEq

/-- Column name to statistics; a column without an entry has none. -/
abbrev Stats := AList (fun _ : String => ColumnStats)

/-- Equality of the entries, which evaluates where the general instance does not. -/
instance : DecidableEq Stats := fun a b =>
  decidable_of_iff (a.entries = b.entries) AList.ext_iff.symm

/-- Smallest and largest element under a key, the first one among equals. -/
def bounds {α : Type*} (key : α → α → Bool) : List α → Option (α × α)
  | [] => none
  | v :: vs =>
    some (vs.foldl (fun m x => if key x m then x else m) v,
      vs.foldl (fun m x => if key m x then x else m) v)

/-- `float64_bounds_ignoring_nan`: one pass over the raw values. -/
def float64BoundsIgnoringNan (values : List F64) : Option (F64 × F64) :=
  values.foldl (fun acc value =>
    if value.isNaN then acc
    else match acc with
      | none => some (value, value)
      | some (lo, hi) =>
        some (if value.lt lo then value else lo, if hi.lt value then value else hi)) none

def totalLt (a b : F64) : Bool := a.totalKey < b.totalKey

def Cell.int64? : Cell → Option ℤ
  | .int64 v => some v
  | _ => none

def Cell.float64? : Cell → Option F64
  | .float64 v => some v
  | _ => none

def Cell.utf8? : Cell → Option String
  | .utf8 v => some v
  | _ => none

/-- The floats in the slots of nulls, by column and row. No cell shows them, but the
value buffer of the array has them. -/
abbrev Slots := ℕ → ℕ → F64

/-- The value buffer of a float column: a null leaves its slot as it is. -/
def rawFloats (slots : ℕ → F64) (cells : List Cell) : List F64 :=
  cells.mapIdx fun i c => (Cell.float64? c).getD (slots i)

def int64Stats (cells : List Cell) : Option ColumnStats :=
  (bounds (fun a b => a < b) (cells.filterMap Cell.int64?)).map
    fun (lo, hi) => ⟨.int64 lo, .int64 hi⟩

/-- The numeric bounds are taken of the value buffer, nulls or not. -/
def float64Stats (slots : ℕ → F64) (cells : List Cell) : Option ColumnStats :=
  match bounds totalLt (cells.filterMap Cell.float64?) with
  | none => none
  | some (lo, hi) =>
    if hi.isNaN then
      (float64BoundsIgnoringNan (rawFloats slots cells)).map
        fun (lo, hi) => ⟨.float64 lo, .float64 hi⟩
    else some ⟨.float64 lo, .float64 hi⟩

def utf8Stats (cells : List Cell) : Option ColumnStats :=
  (bounds (fun a b => a < b) (cells.filterMap Cell.utf8?)).map
    fun (lo, hi) => ⟨.utf8 lo, .utf8 hi⟩

/-- The statistics of one column, none for a type without an order. -/
def columnStats (slots : ℕ → F64) (t : DataType) (cells : List Cell) : Option ColumnStats :=
  match t with
  | .int64 => int64Stats cells
  | .float64 => float64Stats slots cells
  | .utf8 => utf8Stats cells
  | _ => none

/-- `compute_stats`: the statistics of every orderable column. -/
def computeStats (slots : Slots) (batch : RecordBatch) : Stats :=
  batch.schema.fields.zipIdx.foldl (fun stats (field, i) =>
    match columnStats (slots i) field.dataType (batch.column i) with
    | some entry => stats.insert field.name entry
    | none => stats) ∅

/-- `f64::min`: the other operand if one is NaN. -/
def float64Min (a b : F64) : F64 :=
  if a.isNaN then b else if b.isNaN then a else if b.lt a then b else a

/-- `f64::max`: the other operand if one is NaN. -/
def float64Max (a b : F64) : F64 :=
  if a.isNaN then b else if b.isNaN then a else if a.lt b then b else a

/-- The statistics of one column over two batches; mixed variants are dropped. -/
def mergeColumnStats (stats other : ColumnStats) : Option ColumnStats :=
  match stats.min, other.min, stats.max, other.max with
  | .int64 aMin, .int64 bMin, .int64 aMax, .int64 bMax =>
    some ⟨.int64 (min aMin bMin), .int64 (max aMax bMax)⟩
  | .float64 aMin, .float64 bMin, .float64 aMax, .float64 bMax =>
    some ⟨.float64 (float64Min aMin bMin), .float64 (float64Max aMax bMax)⟩
  | .utf8 aMin, .utf8 bMin, .utf8 aMax, .utf8 bMax =>
    some ⟨.utf8 (if bMin < aMin then bMin else aMin), .utf8 (if aMax < bMax then bMax else aMax)⟩
  | _, _, _, _ => none

/-- `merge_zone_map_stats`: keep the columns that every batch bounds. -/
def mergeZoneMapStats (accumulated batchStats : Stats) (isFirstBatch : Bool) : Stats :=
  if isFirstBatch then batchStats
  else accumulated.entries.foldl (fun merged ⟨column, stats⟩ =>
    match (batchStats.lookup column).bind (mergeColumnStats stats) with
    | some entry => merged.insert column entry
    | none => merged) ∅

/-- The zone map of a sequence of files: the first file's statistics, merged
with those of each later one. -/
def zoneMapOf (files : List Stats) : Stats :=
  files.zipIdx.foldl (fun acc (stats, i) => mergeZoneMapStats acc stats (i == 0)) ∅

end StrataDB.Storage
