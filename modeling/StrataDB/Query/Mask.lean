import Mathlib.Logic.Basic
import StrataDB.Query.Predicate

/-! Row-level filtering (`query/src/predicate.rs`): the selection mask of a
predicate over a batch. Comparisons with null are unknown, connectives follow
Kleene's logic, and only rows whose mask is true are kept. The arrow kernels
compare floats in the total order. -/

namespace StrataDB.Query

open Lib Arrow Storage

/-! ### Connectives

Kleene's three-valued logic, where `none` is unknown. Only `some true` selects, so each
connective comes with the condition under which its value is true. -/

namespace Kleene

def and : Option Bool → Option Bool → Option Bool
  | some false, _ => some false
  | _, some false => some false
  | some true, some true => some true
  | _, _ => none

def or : Option Bool → Option Bool → Option Bool
  | some true, _ => some true
  | _, some true => some true
  | some false, some false => some false
  | _, _ => none

def not (a : Option Bool) : Option Bool := a.map (! ·)

variable {a b : Option Bool}

@[simp] theorem and_eq_true : and a b = some true ↔ a = some true ∧ b = some true := by
  rcases a with _ | _ | _ <;> rcases b with _ | _ | _ <;> simp [and]

@[simp] theorem or_eq_true : or a b = some true ↔ a = some true ∨ b = some true := by
  rcases a with _ | _ | _ <;> rcases b with _ | _ | _ <;> simp [or]

end Kleene

/-! ### Comparison kernels -/

inductive CmpOp
  | eq
  | lt
  | ltEq
  | gt
  | gtEq
  deriving DecidableEq

/-- What a kernel answers in a total order, from `<` and `=`. -/
def CmpOp.holds : CmpOp → Bool → Bool → Bool
  | .eq, _, same => same
  | .lt, below, _ => below
  | .ltEq, below, same => below || same
  | .gt, below, same => !(below || same)
  | .gtEq, below, _ => !below

/-- One slot against a literal; the slot of a null is unknown. -/
def CmpOp.cell (op : CmpOp) : Cell → Value → Option Bool
  | .int64 a, .int64 b => some (op.holds (a < b) (a = b))
  | .float64 a, .float64 b => some (op.holds (a.totalKey < b.totalKey) (a = b))
  | .utf8 a, .utf8 b => some (op.holds (a < b) (a = b))
  | _, _ => none

/-- The type of a literal's scalar array. -/
def literalType : Value → DataType
  | .int64 _ => .int64
  | .float64 _ => .float64
  | .utf8 _ => .utf8

/-- The type a kernel sees: that of a dictionary's values. -/
def valueType : DataType → DataType
  | .dictionary _ value => value
  | t => t

/-- `compare`: a column against a literal of the same type. -/
def compare (op : CmpOp) (t : DataType) (cells : List Cell) (v : Value) :
    Except ArrowError (List (Option Bool)) := do
  ensure (valueType t = literalType v) (.invalidArgument "Invalid comparison operation")
  return cells.map (op.cell · v)

/-! ### Masks -/

/-- The mask of a single comparison. -/
def leafMask (batch : RecordBatch) (op : CmpOp) (column : String) (value : Value) :
    Except ArrowError (List (Option Bool)) := do
  let index ← orElse (batch.schema.indexOf column)
    (.schemaError s!"Unable to get field named {column}")
  compare op (batch.schema.typeAt index) (batch.column index) value

/-- `mask`. -/
def mask (batch : RecordBatch) : Predicate → Except ArrowError (List (Option Bool))
  | .and l r => do
    let left ← mask batch l
    let right ← mask batch r
    return List.zipWith Kleene.and left right
  | .or l r => do
    let left ← mask batch l
    let right ← mask batch r
    return List.zipWith Kleene.or left right
  | .eq c v => leafMask batch .eq c v
  | .lt c v => leafMask batch .lt c v
  | .ltEq c v => leafMask batch .ltEq c v
  | .gt c v => leafMask batch .gt c v
  | .gtEq c v => leafMask batch .gtEq c v

/-- `filter_record_batch`: the rows whose slot is true; false and null are
dropped alike. -/
def filterRecordBatch (batch : RecordBatch) (selection : List (Option Bool)) : RecordBatch where
  schema := batch.schema
  rows := ((batch.rows.zip selection).filter fun p => p.2 = some true).map Prod.fst
  fits r hr := by
    obtain ⟨p, hp, rfl⟩ := List.mem_map.mp hr
    exact batch.fits p.1 (List.of_mem_zip (List.mem_of_mem_filter hp)).1

/-- `filter`. -/
def filter (batch : RecordBatch) (predicate : Predicate) : Except ArrowError RecordBatch := do
  let selection ← mask batch predicate
  return filterRecordBatch batch selection

/-! ### Rows -/

/-- A predicate over the answers of its leaves. -/
def Predicate.eval (leaf : CmpOp → String → Value → Option Bool) : Predicate → Option Bool
  | .and l r => Kleene.and (l.eval leaf) (r.eval leaf)
  | .or l r => Kleene.or (l.eval leaf) (r.eval leaf)
  | .eq c v => leaf .eq c v
  | .lt c v => leaf .lt c v
  | .ltEq c v => leaf .ltEq c v
  | .gt c v => leaf .gt c v
  | .gtEq c v => leaf .gtEq c v

/-- A property of all leaves. -/
def Predicate.All (p : CmpOp → String → Value → Prop) : Predicate → Prop
  | .and l r => l.All p ∧ r.All p
  | .or l r => l.All p ∧ r.All p
  | .eq c v => p .eq c v
  | .lt c v => p .lt c v
  | .ltEq c v => p .ltEq c v
  | .gt c v => p .gt c v
  | .gtEq c v => p .gtEq c v

/-- What the kernels answer on one row. -/
def rowLeaf (schema : Schema) (r : Row) (op : CmpOp) (column : String) (value : Value) :
    Option Bool :=
  (schema.indexOf column).bind fun i => op.cell (Row.cell r i) value

/-- The leaf names a column of the literal's type. -/
def LeafTyped (schema : Schema) (_op : CmpOp) (column : String) (value : Value) : Prop :=
  ∃ i, schema.indexOf column = some i ∧ valueType (schema.typeAt i) = literalType value

variable {batch : RecordBatch} {op : CmpOp} {column : String} {value : Value} {p : Predicate}

variable {m : List (Option Bool)}

theorem leafMask_eq_ok :
    leafMask batch op column value = .ok m ↔
      LeafTyped batch.schema op column value ∧
        m = batch.rows.map fun r => rowLeaf batch.schema r op column value := by
  simp only [leafMask, compare, bind_eq_ok, orElse_eq_ok, ensure_eq_ok, exists_const, pure_eq_ok,
    RecordBatch.column, List.map_map]
  constructor
  · rintro ⟨i, hi, htype, rfl⟩
    refine ⟨⟨i, hi, htype⟩, List.map_congr_left fun r _ => ?_⟩
    simp [rowLeaf, hi]
  · rintro ⟨⟨i, hi, htype⟩, rfl⟩
    refine ⟨i, hi, htype, List.map_congr_left fun r _ => ?_⟩
    simp [rowLeaf, hi]

/-- A mask exists if and only if every leaf is typed; it is computed row by row. -/
theorem mask_eq_ok :
    mask batch p = .ok m ↔ p.All (LeafTyped batch.schema) ∧
      m = batch.rows.map fun r => p.eval (rowLeaf batch.schema r) := by
  have hzip : ∀ (f : Option Bool → Option Bool → Option Bool) (g h : Row → Option Bool),
      List.zipWith f (batch.rows.map g) (batch.rows.map h) =
        batch.rows.map fun r => f (g r) (h r) := by
    intro f g h
    simp [List.zipWith_map]
  induction p generalizing m with
  | and l r ihl ihr =>
    simp only [mask, bind_eq_ok, pure_eq_ok, ihl, ihr]
    constructor
    · rintro ⟨_, ⟨hl, rfl⟩, _, ⟨hr, rfl⟩, rfl⟩
      exact ⟨⟨hl, hr⟩, hzip _ _ _⟩
    · rintro ⟨⟨hl, hr⟩, rfl⟩
      exact ⟨_, ⟨hl, rfl⟩, _, ⟨hr, rfl⟩, hzip _ _ _⟩
  | or l r ihl ihr =>
    simp only [mask, bind_eq_ok, pure_eq_ok, ihl, ihr]
    constructor
    · rintro ⟨_, ⟨hl, rfl⟩, _, ⟨hr, rfl⟩, rfl⟩
      exact ⟨⟨hl, hr⟩, hzip _ _ _⟩
    · rintro ⟨⟨hl, hr⟩, rfl⟩
      exact ⟨_, ⟨hl, rfl⟩, _, ⟨hr, rfl⟩, hzip _ _ _⟩
  | _ => exact leafMask_eq_ok

theorem filterRecordBatch_map (f : Row → Option Bool) :
    filterRecordBatch batch (batch.rows.map f) = batch.filter fun r => f r = some true := by
  refine RecordBatch.ext' rfl ?_
  show ((batch.rows.zip (batch.rows.map f)).filter _).map Prod.fst = batch.rows.filter _
  induction batch.rows with
  | nil => rfl
  | cons r rows ih =>
    rw [List.map_cons, List.zip_cons_cons, List.filter_cons, List.filter_cons]
    split <;> simp_all

theorem filter_eq_ok {b : RecordBatch} :
    filter batch p = .ok b ↔ p.All (LeafTyped batch.schema) ∧
      b = batch.filter fun r => p.eval (rowLeaf batch.schema r) = some true := by
  simp only [filter, bind_eq_ok, mask_eq_ok, pure_eq_ok]
  constructor
  · rintro ⟨_, ⟨h, rfl⟩, rfl⟩
    exact ⟨h, filterRecordBatch_map _⟩
  · rintro ⟨h, rfl⟩
    exact ⟨_, ⟨h, rfl⟩, filterRecordBatch_map _⟩

end StrataDB.Query
