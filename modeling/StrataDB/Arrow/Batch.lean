import StrataDB.Lib.Except
import StrataDB.Lib.Ieee754

/-! The part of the columnar data model the database relies on: data types,
fields, schemas and record batches. A record batch is a table that fits its
schema by construction; it is kept row by row, since every operation used here
(filtering, slicing, concatenating, appending a column, projecting by name) acts
on whole rows. A dictionary column holds the logical values it decodes to, so
that packing and unpacking only change its type. -/

namespace StrataDB.Arrow

open Lib

abbrev F32 := Binary 8 23

abbrev F64 := Binary 11 52

/-- The types the database inspects; every other arrow type is `other`. -/
inductive DataType
  | boolean
  | int32
  | int64
  | uint64
  | float32
  | float64
  | utf8
  | fixedSizeList (item : DataType) (itemNullable : Bool) (size : ℕ)
  | dictionary (key value : DataType)
  | other (name : String)
  deriving DecidableEq

/-- One value of a column. A vector keeps the raw components of its child
array. -/
inductive Cell
  | null
  | boolean (value : Bool)
  | int64 (value : ℤ)
  | uint64 (value : ℕ)
  | float64 (value : F64)
  | utf8 (value : String)
  | vector (components : List F32)
  | other (bytes : String)
  deriving DecidableEq

def Cell.isNull : Cell → Bool
  | .null => true
  | _ => false

/-- Whether a non-null cell is a value of the type; a dictionary column holds
values of its value type. -/
def Cell.hasType : Cell → DataType → Bool
  | c, .dictionary _ value => c.hasType value
  | .boolean _, .boolean => true
  | .int64 v, .int64 => -(2 ^ 63) ≤ v && v < 2 ^ 63
  | .uint64 v, .uint64 => v < 2 ^ 64
  | .float64 _, .float64 => true
  | .utf8 _, .utf8 => true
  | .vector xs, .fixedSizeList .float32 _ size => xs.length == size
  | .other _, .int32 => true
  | .other _, .float32 => true
  | .other _, .fixedSizeList item _ _ => item != .float32
  | .other _, .other _ => true
  | _, _ => false

/-- Metadata maps are kept as association lists in key order, so that equal
maps are equal lists. -/
abbrev Metadata := List (String × String)

structure Field where
  name : String
  dataType : DataType
  nullable : Bool
  metadata : Metadata := []
  deriving DecidableEq

/-- `Field::new`: a field without metadata. -/
def Field.new (name : String) (dataType : DataType) (nullable : Bool) : Field :=
  ⟨name, dataType, nullable, []⟩

def Field.accepts (f : Field) (c : Cell) : Bool :=
  if c.isNull then f.nullable else c.hasType f.dataType

structure Schema where
  fields : List Field
  metadata : Metadata := []
  deriving DecidableEq

namespace Schema

/-- Position of the first field with this name. -/
def indexOf (s : Schema) (name : String) : Option ℕ :=
  s.fields.findIdx? (fun f => f.name == name)

def fieldWithName (s : Schema) (name : String) : Option Field :=
  s.fields.find? (fun f => f.name == name)

/-- The type of a column; columns past the end have none and are never read. -/
def typeAt (s : Schema) (i : ℕ) : DataType :=
  match s.fields[i]? with
  | some f => f.dataType
  | none => .other ""

end Schema

abbrev Row := List Cell

def Row.cell (r : Row) (i : ℕ) : Cell := r.getD i .null

variable {r : Row} {fs : List Field} {f : Field}

theorem Row.cell_append_left {i : ℕ} (h : i < r.length) (t : Row) :
    Row.cell (r ++ t) i = Row.cell r i := by
  simp [Row.cell, List.getD_eq_getElem?_getD, List.getElem?_append_left h]

/-- One cell per field, each accepted by its field. -/
def fitsFields : List Field → Row → Bool
  | [], [] => true
  | f :: fs, c :: cs => f.accepts c && fitsFields fs cs
  | _, _ => false

theorem fitsFields_iff :
    fitsFields fs r = true ↔ List.Forall₂ (fun f c => f.accepts c = true) fs r := by
  induction fs generalizing r with
  | nil => cases r <;> simp [fitsFields]
  | cons f fs ih => cases r <;> simp [fitsFields, ih]

theorem fitsFields_length (h : fitsFields fs r = true) : r.length = fs.length :=
  (fitsFields_iff.mp h).length_eq.symm

theorem accepts_cell (h : fitsFields fs r = true) {k : ℕ} (hk : fs[k]? = some f) :
    f.accepts (Row.cell r k) = true := by
  obtain ⟨hlt, rfl⟩ := List.getElem?_eq_some_iff.mp hk
  have hlt' : k < r.length := by rwa [fitsFields_length h]
  have := List.Forall₂.get (fitsFields_iff.mp h) hlt hlt'
  simpa [Row.cell, List.getD_eq_getElem?_getD, hlt'] using this

theorem Field.accepts_cases {c : Cell} (h : f.accepts c = true) :
    c.isNull = true ∨ c.hasType f.dataType = true := by
  unfold Field.accepts at h
  split at h
  · exact .inl ‹_›
  · exact .inr h

theorem fitsFields_append {gs : List Field} {t : Row} (hr : fitsFields fs r = true)
    (ht : fitsFields gs t = true) : fitsFields (fs ++ gs) (r ++ t) = true := by
  rw [fitsFields_iff] at hr ht ⊢
  exact List.rel_append hr ht

/-- A table whose rows fit its schema. -/
structure RecordBatch where
  schema : Schema
  rows : List Row
  fits : ∀ r ∈ rows, fitsFields schema.fields r = true
  deriving DecidableEq

/-- Failures of the arrow kernels that the database passes on. -/
inductive ArrowError
  | schemaError (message : String)
  | castError (message : String)
  | invalidArgument (message : String)
  deriving DecidableEq

namespace RecordBatch

@[ext] theorem ext' {a b : RecordBatch} (hs : a.schema = b.schema) (hr : a.rows = b.rows) :
    a = b := by
  cases a
  cases b
  cases hs
  cases hr
  rfl

def numRows (b : RecordBatch) : ℕ := b.rows.length

/-- `RecordBatch::try_new_with_options` with a row count: the rows must fit the
schema. -/
def tryNewWithOptions (schema : Schema) (rows : List Row) : Except ArrowError RecordBatch :=
  if h : ∀ r ∈ rows, fitsFields schema.fields r = true then .ok ⟨schema, rows, h⟩
  else .error (.invalidArgument "column types must match schema types")

/-- `RecordBatch::try_new`, which takes the row count from the first column. -/
def tryNew (schema : Schema) (rows : List Row) : Except ArrowError RecordBatch :=
  if schema.fields = [] then
    .error (.invalidArgument "must either specify a row count or at least one column")
  else tryNewWithOptions schema rows

theorem tryNewWithOptions_eq_ok {schema : Schema} {rows : List Row} {b : RecordBatch} :
    tryNewWithOptions schema rows = .ok b ↔ b.schema = schema ∧ b.rows = rows := by
  unfold tryNewWithOptions
  split
  · constructor
    · rintro ⟨⟩
      exact ⟨rfl, rfl⟩
    · rintro ⟨rfl, rfl⟩
      rfl
  · rename_i h
    constructor
    · intro hb
      cases hb
    · rintro ⟨rfl, rfl⟩
      exact absurd b.fits h

theorem tryNewWithOptions_of_fits {schema : Schema} {rows : List Row}
    (h : ∀ r ∈ rows, fitsFields schema.fields r = true) :
    tryNewWithOptions schema rows = .ok ⟨schema, rows, h⟩ := by
  rw [tryNewWithOptions, dif_pos h]

theorem tryNew_of_ne {schema : Schema} (h : schema.fields ≠ []) (rows : List Row) :
    tryNew schema rows = tryNewWithOptions schema rows := if_neg h

theorem tryNew_eq_ok {schema : Schema} {rows : List Row} {b : RecordBatch} :
    tryNew schema rows = .ok b ↔ schema.fields ≠ [] ∧ b.schema = schema ∧ b.rows = rows := by
  unfold tryNew
  split
  · rename_i h
    simp [h]
  · rename_i h
    rw [tryNewWithOptions_eq_ok, and_iff_right h]

/-- The cells of one column. -/
def column (b : RecordBatch) (i : ℕ) : List Cell := b.rows.map (Row.cell · i)

/-- `filter_record_batch` with the mask computed row by row. -/
def filter (b : RecordBatch) (keep : Row → Bool) : RecordBatch where
  schema := b.schema
  rows := b.rows.filter keep
  fits r hr := b.fits r (List.mem_of_mem_filter hr)

def slice (b : RecordBatch) (offset length : ℕ) : RecordBatch where
  schema := b.schema
  rows := (b.rows.drop offset).take length
  fits r hr := b.fits r (List.mem_of_mem_drop (List.mem_of_mem_take hr))

/-- `concat_batches`: the rows of all batches under the given schema. -/
def concat (schema : Schema) (bs : List RecordBatch) : Except ArrowError RecordBatch :=
  tryNewWithOptions schema (bs.flatMap rows)

/-- Extend every row by one cell under one more field. -/
def appendColumn (b : RecordBatch) (schema : Schema) (cells : List Cell) :
    Except ArrowError RecordBatch :=
  tryNew schema (List.zipWith (fun r c => r ++ [c]) b.rows cells)

variable (b : RecordBatch) (p : Row → Bool)

@[simp] theorem filter_schema : (b.filter p).schema = b.schema := rfl

@[simp] theorem filter_rows : (b.filter p).rows = b.rows.filter p := rfl

variable (o l : ℕ)

@[simp] theorem slice_schema : (b.slice o l).schema = b.schema := rfl

@[simp] theorem slice_rows : (b.slice o l).rows = (b.rows.drop o).take l := rfl

end RecordBatch

/-- What the arrow crates do for the database: converting columns between types,
row encoding, and the length and checksum of a batch written as an IPC file.
Conversion into and out of a dictionary keeps every logical value. -/
structure Kernels where
  cast : DataType → DataType → Option (Cell → Cell)
  rowConvertible : DataType → Bool
  ipcByteLen : RecordBatch → ℕ
  ipcCrc32c : RecordBatch → ℕ
  pack_eq : ∀ key value f, cast value (.dictionary key value) = some f → f = id
  unpack_eq : ∀ key value, cast (.dictionary key value) value = some id

end StrataDB.Arrow
