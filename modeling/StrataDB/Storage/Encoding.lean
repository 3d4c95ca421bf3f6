import Mathlib.Data.Finset.Card
import Mathlib.Data.List.Dedup
import StrataDB.Arrow.Batch
import StrataDB.Lib.List

/-! Automatic dictionary encoding (`storage/src/encoding.rs`). A column whose
distinct values are fewer than four tenths of its non-null values is packed into
a dictionary; the rows keep their logical values. -/

namespace StrataDB.Storage

open Lib Arrow

def nonNulls (cells : List Cell) : List Cell := cells.filter fun c => !c.isNull

/-- The loop of `should_dictionary_encode` over a column: the number of distinct
values, or none as soon as it reaches the bound. -/
def countDistinct (bailOutAt : ℕ) : List Cell → List Cell → Option ℕ
  | distinct, [] => some distinct.length
  | distinct, c :: cells =>
    if c.isNull then countDistinct bailOutAt distinct cells
    else
      let distinct := distinct.insert c
      if bailOutAt ≤ distinct.length then none else countDistinct bailOutAt distinct cells

/-- `should_dictionary_encode`. The threshold `0.4` is taken exactly, in the bound
as in the ratio; the row converter may not support the column's type. -/
def shouldDictionaryEncode (K : Kernels) (dataType : DataType) (cells : List Cell) :
    Except ArrowError Bool := do
  let nonNull := (nonNulls cells).length
  if nonNull = 0 then return false
  ensure (K.rowConvertible dataType = true) (.invalidArgument "not yet implemented row format")
  match countDistinct ((2 * nonNull + 4) / 5) [] cells with
  | none => return false
  | some distinct => return decide (5 * distinct < 2 * nonNull)

/-- The field a column is stored under, and the conversion of its cells. -/
def encodeColumn (K : Kernels) (field : Field) (cells : List Cell) :
    Except ArrowError (Field × (Cell → Cell)) := do
  if ← shouldDictionaryEncode K field.dataType cells then
    let dictType := DataType.dictionary .int32 field.dataType
    let convert ← orElse (K.cast field.dataType dictType)
      (.castError "unsupported output type for dictionary packing")
    return ({ field with dataType := dictType }, convert)
  else return (field, id)

/-- `encode_batch`. Field and schema metadata are kept. -/
def encodeBatch (K : Kernels) (batch : RecordBatch) : Except ArrowError RecordBatch := do
  let columns ← batch.schema.fields.zipIdx.mapM fun (field, i) =>
    encodeColumn K field (batch.column i)
  RecordBatch.tryNew ⟨columns.map Prod.fst, batch.schema.metadata⟩
    (batch.rows.map fun r => List.zipWith (fun c (convert : Cell → Cell) => convert c) r
      (columns.map Prod.snd))

/-! ### When a column is packed -/

/-- Fewer distinct values than four tenths of the non-null ones. -/
def Repetitive (cells : List Cell) : Prop :=
  5 * (nonNulls cells).dedup.length < 2 * (nonNulls cells).length

instance (cells : List Cell) : Decidable (Repetitive cells) := inferInstanceAs (Decidable (_ < _))

variable {cells : List Cell} {K : Kernels} {field : Field} {c : Field × (Cell → Cell)}
  {batch : RecordBatch}

/-- Leaving the loop early or not, it knows whether the bound is reached. -/
theorem countDistinct_eq {bailOutAt : ℕ} {distinct : List Cell} (hn : distinct.Nodup)
    (hlt : distinct.length < bailOutAt) :
    countDistinct bailOutAt distinct cells =
      if bailOutAt ≤ (distinct.toFinset ∪ (nonNulls cells).toFinset).card then none
      else some (distinct.toFinset ∪ (nonNulls cells).toFinset).card := by
  induction cells generalizing distinct with
  | nil =>
    rw [countDistinct, nonNulls, List.filter_nil, List.toFinset_nil, Finset.union_empty,
      List.toFinset_card_of_nodup hn, if_neg (by omega)]
  | cons c cells ih =>
    rw [countDistinct]
    by_cases hc : c.isNull = true
    · rw [if_pos hc, ih hn hlt, nonNulls, nonNulls, List.filter_cons_of_neg (by simp [hc])]
    · have hinsert : (distinct.insert c).toFinset = insert c distinct.toFinset := by
        ext x
        simp [List.mem_insert_iff]
      have hunion : distinct.toFinset ∪ (nonNulls (c :: cells)).toFinset =
          (distinct.insert c).toFinset ∪ (nonNulls cells).toFinset := by
        rw [nonNulls, List.filter_cons_of_pos (by simp [hc]), List.toFinset_cons, hinsert,
          Finset.insert_union, Finset.union_insert]
        rfl
      rw [if_neg hc, hunion]
      dsimp only
      split
      · rename_i hreached
        have hsub : (distinct.insert c).toFinset.card ≤
            ((distinct.insert c).toFinset ∪ (nonNulls cells).toFinset).card :=
          Finset.card_le_card Finset.subset_union_left
        rw [List.toFinset_card_of_nodup hn.insert] at hsub
        rw [if_pos (hreached.trans hsub)]
      · rename_i hbelow
        exact ih hn.insert (by omega)

theorem shouldDictionaryEncode_eq {t : DataType} (ht : K.rowConvertible t = true)
    (cells : List Cell) : shouldDictionaryEncode K t cells = .ok (decide (Repetitive cells)) := by
  unfold shouldDictionaryEncode
  dsimp only
  by_cases hzero : (nonNulls cells).length = 0
  · have hnot : ¬ Repetitive cells := by
      unfold Repetitive
      omega
    rw [if_pos hzero, decide_eq_false hnot]
    rfl
  · have hbound : ([] : List Cell).length < (2 * (nonNulls cells).length + 4) / 5 := by
      rw [List.length_nil]
      omega
    rw [if_neg hzero, ensure_of _ ht, ok_bind, countDistinct_eq List.nodup_nil hbound,
      List.toFinset_nil, Finset.empty_union, List.card_toFinset]
    by_cases hreached : (2 * (nonNulls cells).length + 4) / 5 ≤ (nonNulls cells).dedup.length
    · have hnot : ¬ Repetitive cells := by
        unfold Repetitive
        omega
      rw [if_pos hreached, decide_eq_false hnot]
      rfl
    · rw [if_neg hreached]
      rfl

/-! ### When a batch can be stored -/

/-- The types the query layer supports; a vector has no null components. -/
inductive Supported : DataType → Prop
  | boolean : Supported .boolean
  | int64 : Supported .int64
  | uint64 : Supported .uint64
  | float64 : Supported .float64
  | utf8 : Supported .utf8
  | vector (size : ℕ) : Supported (.fixedSizeList .float32 false size)

/-- The types arrow cannot pack into a dictionary. -/
def unpackable : DataType → Bool
  | .boolean | .fixedSizeList _ _ _ => true
  | _ => false

/-- What arrow documents: rows of all supported types can be converted, and the
casts into a dictionary exist but for booleans and lists. -/
structure ArrowPacking (K : Kernels) : Prop where
  rowConvertible : ∀ t, Supported t → K.rowConvertible t = true
  packs : ∀ t, Supported t → unpackable t = false →
    (K.cast t (.dictionary .int32 t)).isSome = true
  refuses : ∀ t, unpackable t = true → K.cast t (.dictionary .int32 t) = none

/-- One column: packing is refused only when it is wanted. -/
theorem encodeColumn_iff (hK : ArrowPacking K) (ht : Supported field.dataType) (cells : List Cell) :
    (∃ c, encodeColumn K field cells = .ok c) ↔
      (unpackable field.dataType = true → ¬ Repetitive cells) := by
  unfold encodeColumn
  rw [shouldDictionaryEncode_eq (hK.rowConvertible _ ht), ok_bind]
  by_cases hrep : Repetitive cells
  · rw [decide_eq_true hrep, if_pos rfl]
    dsimp only
    cases hpack : unpackable field.dataType with
    | true =>
      rw [hK.refuses _ hpack]
      constructor
      · rintro ⟨_, hc⟩
        cases hc
      · exact fun hnot => absurd hrep (hnot rfl)
    | false =>
      obtain ⟨convert, hconvert⟩ := Option.isSome_iff_exists.mp (hK.packs _ ht hpack)
      rw [hconvert]
      exact ⟨fun _ h => (Bool.false_ne_true h).elim, fun _ => ⟨_, rfl⟩⟩
  · rw [decide_eq_false hrep, if_neg Bool.false_ne_true]
    exact ⟨fun _ _ => hrep, fun _ => ⟨_, rfl⟩⟩

/-- The stored field differs at most in its type, and accepts the same cells. -/
theorem encodeColumn_field (h : encodeColumn K field cells = .ok c) :
    c.2 = id ∧ (c.1.name, c.1.nullable, c.1.metadata) =
      (field.name, field.nullable, field.metadata) ∧
      ∀ cell, c.1.accepts cell = field.accepts cell := by
  unfold encodeColumn at h
  obtain ⟨pack, _, h⟩ := bind_eq_ok.mp h
  split at h
  · simp only [bind_eq_ok, orElse_eq_ok, pure_eq_ok] at h
    obtain ⟨f, hf, rfl⟩ := h
    refine ⟨K.pack_eq _ _ _ hf, rfl, fun cell => ?_⟩
    simp [Field.accepts, Cell.hasType]
  · obtain rfl := pure_eq_ok.mp h
    exact ⟨rfl, rfl, fun _ => rfl⟩

/-- A column of a type that cannot be packed keeps its field. -/
theorem encodeColumn_unpackable (hK : ArrowPacking K) (h : encodeColumn K field cells = .ok c)
    (ht : unpackable field.dataType = true) : c.1 = field := by
  unfold encodeColumn at h
  obtain ⟨pack, _, h⟩ := bind_eq_ok.mp h
  split at h
  · dsimp only at h
    rw [hK.refuses _ ht] at h
    cases h
  · rw [← pure_eq_ok.mp h]

theorem zipWith_convert_id {r : Row} {converts : List (Cell → Cell)}
    (hid : ∀ c ∈ converts, c = id) (hlen : r.length ≤ converts.length) :
    List.zipWith (fun c (convert : Cell → Cell) => convert c) r converts = r := by
  induction r generalizing converts with
  | nil => rfl
  | cons c r ih =>
    cases converts with
    | nil => simp at hlen
    | cons f converts =>
      rw [List.forall_mem_cons] at hid
      rw [List.zipWith_cons_cons, hid.1, ih hid.2 (by simpa using hlen)]
      rfl

theorem fitsFields_congr {fs gs : List Field}
    (h : List.Forall₂ (fun f g => ∀ c, g.accepts c = f.accepts c) fs gs) (r : Row) :
    fitsFields gs r = fitsFields fs r := by
  induction h generalizing r with
  | nil => rfl
  | cons hd _ ih =>
    cases r with
    | nil => rfl
    | cons c r => rw [fitsFields, fitsFields, hd, ih]

theorem encodeBatch_of_columns {columns : List (Field × (Cell → Cell))}
    (hne : batch.schema.fields ≠ [])
    (h : List.Forall₂ (fun p c => encodeColumn K p.1 (batch.column p.2) = .ok c)
      batch.schema.fields.zipIdx columns) :
    ∃ encoded, encodeBatch K batch = .ok encoded ∧ encoded.rows = batch.rows ∧
      encoded.schema = ⟨columns.map Prod.fst, batch.schema.metadata⟩ := by
  have hfields : List.Forall₂ (fun f (c : Field × (Cell → Cell)) => c.2 = id ∧
      ∀ cell, c.1.accepts cell = f.accepts cell) batch.schema.fields columns := by
    have hfst : batch.schema.fields = batch.schema.fields.zipIdx.map Prod.fst := by
      rw [List.zipIdx_map_fst]
    rw [hfst, List.forall₂_map_left_iff]
    exact h.imp fun p c hc => ⟨(encodeColumn_field hc).1, (encodeColumn_field hc).2.2⟩
  have hrows : (batch.rows.map fun r => List.zipWith (fun c (convert : Cell → Cell) => convert c) r
      (columns.map Prod.snd)) = batch.rows := by
    conv_rhs => rw [← List.map_id batch.rows]
    refine List.map_congr_left fun r hr => zipWith_convert_id (fun f hf => ?_) ?_
    · obtain ⟨c, hc, rfl⟩ := List.mem_map.mp hf
      obtain ⟨_, _, hid, _⟩ := exists_left_of_forall₂ hfields hc
      exact hid
    · rw [List.length_map, ← hfields.length_eq, fitsFields_length (batch.fits r hr)]
  have hfits : ∀ r ∈ batch.rows, fitsFields (columns.map Prod.fst) r = true := by
    intro r hr
    rw [fitsFields_congr (List.forall₂_map_right_iff.mpr (hfields.imp fun _ _ hc => hc.2)),
      batch.fits r hr]
  refine ⟨⟨⟨columns.map Prod.fst, batch.schema.metadata⟩, batch.rows, hfits⟩, ?_, rfl, rfl⟩
  have hcolumns : columns.map Prod.fst ≠ [] := by
    rw [← List.length_pos_iff, List.length_map, ← hfields.length_eq]
    exact List.length_pos_of_ne_nil hne
  unfold encodeBatch
  rw [mapM_eq_ok.mpr h, ok_bind, hrows, RecordBatch.tryNew_of_ne hcolumns,
    RecordBatch.tryNewWithOptions_of_fits hfits]

theorem encodeBatch_getElem {encoded : RecordBatch} (h : encodeBatch K batch = .ok encoded) {k : ℕ}
    {f : Field} (hk : batch.schema.fields[k]? = some f) :
    ∃ c, encodeColumn K f (batch.column k) = .ok c ∧ encoded.schema.fields[k]? = some c.1 := by
  obtain ⟨columns, hcols, hnew⟩ := bind_eq_ok.mp h
  rw [mapM_eq_ok] at hcols
  rw [(RecordBatch.tryNew_eq_ok.mp hnew).2.1, List.getElem?_map]
  have hzip : batch.schema.fields.zipIdx[k]? = some (f, k) := by
    rw [List.getElem?_zipIdx, hk, Nat.zero_add]
    rfl
  obtain ⟨hlt, hget⟩ := List.getElem?_eq_some_iff.mp hzip
  have hlt' : k < columns.length := by rwa [← hcols.length_eq]
  have hcol := hcols.get hlt hlt'
  simp only [List.get_eq_getElem, hget] at hcol
  exact ⟨columns[k], hcol, by rw [List.getElem?_eq_getElem hlt']; rfl⟩

/-- A batch of supported types is stored, under the same names, nullability and
metadata, exactly when it has a column and none of its boolean and list columns is
repetitive. -/
theorem encodeBatch_iff {K : Kernels} (hK : ArrowPacking K) {batch : RecordBatch}
    (hsupported : ∀ f ∈ batch.schema.fields, Supported f.dataType) :
    (∃ encoded, encodeBatch K batch = .ok encoded ∧ encoded.numRows = batch.numRows ∧
      encoded.schema.metadata = batch.schema.metadata ∧
      encoded.schema.fields.map (fun f => (f.name, f.nullable, f.metadata)) =
        batch.schema.fields.map fun f => (f.name, f.nullable, f.metadata)) ↔
      batch.schema.fields ≠ [] ∧ ∀ k f, batch.schema.fields[k]? = some f →
        unpackable f.dataType = true → ¬ Repetitive (batch.column k) := by
  have hcolumns : (∃ columns, batch.schema.fields.zipIdx.mapM
      (fun p => encodeColumn K p.1 (batch.column p.2)) = .ok columns) ↔
        ∀ k f, batch.schema.fields[k]? = some f → unpackable f.dataType = true →
          ¬ Repetitive (batch.column k) := by
    rw [exists_mapM_eq_ok]
    constructor
    · intro hall k f hk
      exact (encodeColumn_iff hK (hsupported f (List.mem_of_getElem? hk)) _).mp
        (hall (f, k) (List.mem_zipIdx_iff_getElem?.mpr hk))
    · rintro hall ⟨f, k⟩ hp
      have hk := List.mem_zipIdx_iff_getElem?.mp hp
      exact (encodeColumn_iff hK (hsupported f (List.mem_of_getElem? hk)) _).mpr (hall k f hk)
  rw [← hcolumns]
  constructor
  · rintro ⟨encoded, hencoded, -⟩
    obtain ⟨columns, hcols, hnew⟩ := bind_eq_ok.mp hencoded
    refine ⟨fun hnil => (RecordBatch.tryNew_eq_ok.mp hnew).1 ?_, columns, hcols⟩
    rw [mapM_eq_ok, hnil, List.zipIdx_nil, List.forall₂_nil_left_iff] at hcols
    rw [hcols, List.map_nil]
  · rintro ⟨hne, columns, hcols⟩
    rw [mapM_eq_ok] at hcols
    obtain ⟨encoded, hencoded, hrows, hschema⟩ := encodeBatch_of_columns hne hcols
    refine ⟨encoded, hencoded, by rw [RecordBatch.numRows, hrows]; rfl, by rw [hschema], ?_⟩
    have hfst : batch.schema.fields = batch.schema.fields.zipIdx.map Prod.fst := by
      rw [List.zipIdx_map_fst]
    rw [hschema, List.map_map, hfst, List.map_map]
    exact map_eq_of_forall₂ (hcols.imp fun p c hc => (encodeColumn_field hc).2.1)

/-- Kernels that pack what arrow packs. -/
def arrowKernels : Kernels where
  cast source target :=
    match source, target with
    | .dictionary _ value, target => if value = target then some id else none
    | source, .dictionary _ value =>
      if value = source ∧ unpackable source = false then some id else none
    | _, _ => none
  rowConvertible _ := true
  ipcByteLen batch := batch.numRows
  ipcCrc32c _ := 0
  pack_eq key value f h := by cases value <;> simp_all
  unpack_eq key value := by simp

theorem arrowKernels_packing : ArrowPacking arrowKernels where
  rowConvertible _ _ := rfl
  packs t ht hp := by cases ht <;> simp_all [arrowKernels, unpackable]
  refuses t ht := by cases t <;> simp_all [arrowKernels, unpackable]

/-- One row per flag. -/
def flagBatch (flags : List Bool) : RecordBatch where
  schema := ⟨[Field.new "flag" .boolean false], []⟩
  rows := flags.map fun b => [.boolean b]
  fits := by
    intro r hr
    obtain ⟨b, _, rfl⟩ := List.mem_map.mp hr
    rfl

/-- Two flags are stored as they are. -/
theorem encodeBatch_iff_twoFlags :
    ∃ encoded, encodeBatch arrowKernels (flagBatch [true, true]) = .ok encoded ∧
      encoded.numRows = 2 := by
  have hsupported : ∀ f ∈ (flagBatch [true, true]).schema.fields, Supported f.dataType := by
    intro f hf
    rw [List.mem_singleton.mp hf]
    exact .boolean
  obtain ⟨encoded, hencoded, hrows, -⟩ :=
    (encodeBatch_iff arrowKernels_packing hsupported).mpr ⟨by decide, fun k f hk _ => by
      have hk' : k = 0 := by simpa [flagBatch] using (List.getElem?_eq_some_iff.mp hk).1
      subst hk'
      decide⟩
  exact ⟨encoded, hencoded, hrows⟩

/-- Three equal flags are to be packed, and are refused. -/
theorem encodeBatch_refuses_flags :
    encodeBatch arrowKernels (flagBatch [true, true, true]) =
      .error (.castError "unsupported output type for dictionary packing") := by
  decide +kernel

end StrataDB.Storage
