import StrataDB.Lib.Grouping
import StrataDB.Query.GroupBy

/-! What grouping returns. An accumulator is a list of slots, one for each group, and a
slot is a fold of the values of its group; `Aligned` keeps the accumulators, the keys and
the index of the keys in step from row to row. The result is the one that the rows of
each group determine, but for counts of columns in which a null is not marked. -/

namespace StrataDB.Query

open Lib Arrow

variable {K : GroupKernels}

/-! ### Slots -/

namespace ColumnarAccumulator

/-- The value of a slot before the first row. -/
def identity : AggFunc → F64
  | .min => F64.infinity false
  | .max => F64.infinity true
  | _ => F64.zero

variable (K) in
/-- How a slot takes in a value; a count does not look at it. -/
def combine : AggFunc → F64 → F64 → F64
  | .count => fun acc _ => acc
  | .sum => K.add
  | .min => K.minimum
  | .max => K.maximum
  | .avg => K.add

variable (K) in
def absorb (func : AggFunc) (slot : F64 × ℕ) (value : F64) : F64 × ℕ :=
  (combine K func slot.1 value, slot.2 + 1)

/-- The accumulator with these slots. -/
def ofSlots : AggFunc → List (F64 × ℕ) → ColumnarAccumulator
  | .count, slots => count (slots.map Prod.snd)
  | .sum, slots => sum (slots.map Prod.fst) (slots.map Prod.snd)
  | .min, slots => min (slots.map Prod.fst) (slots.map Prod.snd)
  | .max, slots => max (slots.map Prod.fst) (slots.map Prod.snd)
  | .avg, slots => avg (slots.map Prod.fst) (slots.map Prod.snd)

variable (K) in
/-- What one slot ends as. -/
def finish : AggFunc → F64 × ℕ → Option AggValue
  | .count, slot => some (.int ((slot.2 : ℤ).bmod (2 ^ 64)))
  | .avg, slot => emit (K.div slot.1 (K.ofUInt64 slot.2)) slot.2
  | _, slot => emit slot.1 slot.2

theorem new_eq (func : AggFunc) : new func = ofSlots func [] := by
  cases func <;> rfl

theorem pushIdentity_ofSlots (func : AggFunc) (slots : List (F64 × ℕ)) :
    (ofSlots func slots).pushIdentity = ofSlots func (slots ++ [(identity func, 0)]) := by
  cases func <;> simp [ofSlots, pushIdentity, identity]

theorem update_ofSlots (func : AggFunc) (slots : List (F64 × ℕ)) (group : ℕ) (value : F64) :
    (ofSlots func slots).update K group value =
      ofSlots func (slots.modify group (absorb K func · value)) := by
  have hcount : (slots.modify group (absorb K func · value)).map Prod.snd =
      (slots.map Prod.snd).modify group (· + 1) :=
    map_modify (f := Prod.snd) (fun _ => rfl) slots group
  have hvalue : (slots.modify group (absorb K func · value)).map Prod.fst =
      (slots.map Prod.fst).modify group (combine K func · value) :=
    map_modify (f := Prod.fst) (fun _ => rfl) slots group
  cases func <;> simp only [ofSlots, update, hcount, hvalue] <;> rfl

theorem finishAll_ofSlots (func : AggFunc) (slots : List (F64 × ℕ)) :
    (ofSlots func slots).finishAll K = slots.map (finish K func) := by
  cases func <;> simp [ofSlots, finishAll, finish, List.zipWith_map, List.zipWith_self]

theorem foldl_absorb (func : AggFunc) (values : List F64) (slot : F64 × ℕ) :
    values.foldl (absorb K func) slot =
      (values.foldl (combine K func) slot.1, slot.2 + values.length) := by
  induction values generalizing slot with
  | nil => rfl
  | cons v values ih =>
    rw [List.foldl_cons, ih, List.foldl_cons, List.length_cons]
    simp only [absorb, Prod.mk.injEq, true_and]
    omega

end ColumnarAccumulator

open ColumnarAccumulator

/-! ### The row loop -/

/-- The value with which a row updates an aggregate. -/
def AggColumn.value (column : AggColumn) (i : ℕ) : Option F64 :=
  if column.isNull i then none
  else if column.func = .count then some F64.zero
  else column.floats.map (·.getD i F64.zero)

variable (column : AggColumn)

theorem AggColumn.update_eq (i group : ℕ) (acc : ColumnarAccumulator) :
    column.update K i group acc = (column.value i).elim acc (acc.update K group) := by
  unfold AggColumn.update AggColumn.value
  split
  · rfl
  · split
    · rfl
    · cases column.floats <;> rfl

variable (K) in
/-- The slot of a key: the fold of the values of its rows. -/
def slotOf (column : AggColumn) (seen : List (K.Encoded × ℕ)) (k : K.Encoded) : F64 × ℕ :=
  ((seen.filter (·.1 = k)).filterMap (column.value ·.2)).foldl (absorb K column.func)
    (identity column.func, 0)

theorem slotOf_concat (seen : List (K.Encoded × ℕ)) (row : K.Encoded × ℕ) (k : K.Encoded) :
    slotOf K column (seen ++ [row]) k =
      if k = row.1 then
        (column.value row.2).elim (slotOf K column seen k)
          (absorb K column.func (slotOf K column seen k))
      else slotOf K column seen k := by
  unfold slotOf
  rw [List.filter_append, List.filterMap_append, List.foldl_append]
  by_cases hk : row.1 = k
  · cases hvalue : column.value row.2 <;> simp [hk, hvalue]
  · simp [hk, Ne.symm hk]

theorem slotOf_new {column : AggColumn} {seen : List (K.Encoded × ℕ)} {k : K.Encoded}
    (h : k ∉ seen.map Prod.fst) : slotOf K column seen k = (identity column.func, 0) := by
  have hnil : seen.filter (·.1 = k) = [] := by
    rw [List.filter_eq_nil_iff]
    intro row hrow hk
    exact h (List.mem_map.mpr ⟨row, hrow, by simpa using hk⟩)
  rw [slotOf, hnil]
  rfl

/-- The state after some rows: the keys, the index and the accumulators of the same
groups. -/
structure Aligned (columns : List AggColumn) (seen : List (K.Encoded × ℕ))
    (keys : List K.Encoded) (s : GroupState K) : Prop where
  keyRows : s.groupKeyRows = keys
  nodup : keys.Nodup
  index : ∀ k, s.groupIndexOf.lookup k = if k ∈ keys then some (keys.idxOf k) else none
  state : s.state = columns.map fun column =>
    ofSlots column.func (keys.map (slotOf K column seen))

namespace Aligned

variable {columns : List AggColumn} {seen : List (K.Encoded × ℕ)} {keys : List K.Encoded}
  {s : GroupState K}

/-- The group of a row, which is a new one for a new key. -/
theorem entry (h : Aligned columns seen keys s) (hseen : ∀ k ∈ seen.map Prod.fst, k ∈ keys)
    (k : K.Encoded) :
    Aligned columns seen (if k ∈ keys then keys else keys ++ [k]) (s.entry k).2 ∧
      (s.entry k).1 = (if k ∈ keys then keys else keys ++ [k]).idxOf k := by
  have hindex := h.index k
  by_cases hk : k ∈ keys
  · rw [if_pos hk] at hindex ⊢
    rw [GroupState.entry, hindex]
    exact ⟨h, rfl⟩
  · rw [if_neg hk] at hindex ⊢
    rw [GroupState.entry, hindex]
    have hidx : (keys ++ [k]).idxOf k = keys.length := by
      rw [List.idxOf_append_of_notMem hk]
      simp
    refine ⟨⟨?_, ?_, ?_, ?_⟩, ?_⟩
    · rw [← h.keyRows]
    · exact List.nodup_append.mpr ⟨h.nodup, by simp, by
        rintro a ha _ hb rfl
        exact hk (List.mem_singleton.mp hb ▸ ha)⟩
    · intro other
      rw [List.lookup_cons, h.index, h.keyRows]
      by_cases hother : other = k
      · subst hother
        simp [hidx]
      · have : (other == k) = false := by simpa using hother
        simp only [this, List.mem_append, List.mem_singleton, hother, or_false]
        split
        · rw [List.idxOf_append_of_mem ‹_›]
        · rfl
    · rw [h.state, List.map_map]
      refine List.map_congr_left fun column _ => ?_
      rw [Function.comp_apply, pushIdentity_ofSlots, List.map_append, List.map_singleton,
        slotOf_new fun hmem => hk (hseen k hmem)]
    · rw [hidx, h.keyRows]

theorem visit (h : Aligned columns seen (firsts (seen.map Prod.fst)) s) (row : K.Encoded × ℕ) :
    Aligned columns (seen ++ [row]) (firsts ((seen ++ [row]).map Prod.fst))
      (s.visit columns row) := by
  rw [List.map_append, List.map_singleton, firsts_concat]
  obtain ⟨hentry, hgroup⟩ := h.entry (fun k hk => mem_firsts.mpr hk) row.1
  have hmem : row.1 ∈ (if row.1 ∈ firsts (seen.map Prod.fst) then firsts (seen.map Prod.fst)
      else firsts (seen.map Prod.fst) ++ [row.1]) := by
    split
    · assumption
    · simp
  refine ⟨hentry.keyRows, hentry.nodup, hentry.index, ?_⟩
  change List.zipWith (fun column acc => column.update K row.2 (s.entry row.1).1 acc) columns
    (s.entry row.1).2.state = _
  rw [hentry.state, List.zipWith_map_right, List.zipWith_self]
  refine List.map_congr_left fun column _ => ?_
  have hslots := funext fun k => slotOf_concat column seen row k
  rw [AggColumn.update_eq, hslots, hgroup]
  cases column.value row.2 with
  | none => simp
  | some v =>
    rw [Option.elim_some, update_ofSlots, modify_idxOf hentry.nodup hmem]
    rfl

end Aligned

theorem aligned_foldl (columns : List AggColumn) (rows : List (K.Encoded × ℕ)) :
    Aligned columns rows (firsts (rows.map Prod.fst))
      (rows.foldl (GroupState.visit columns)
        ⟨[], [], columns.map fun column => .new column.func⟩) := by
  induction rows using List.reverseRecOn with
  | nil =>
    refine ⟨rfl, List.nodup_nil, fun k => rfl, ?_⟩
    exact List.map_congr_left fun column _ => new_eq column.func
  | append_singleton rows row ih =>
    rw [List.foldl_append]
    exact ih.visit row

/-! ### What the rows of a group determine -/

def columnIndex (schema : Schema) (name : String) : ℕ := (schema.indexOf name).getD 0

/-- The key of a row. -/
def keyOf (schema : Schema) (groupCols : List String) (r : Row) : Row :=
  groupCols.map fun name => Row.cell r (columnIndex schema name)

variable (K) in
/-- A value of a numeric column as `f64`. -/
def number (t : DataType) (c : Cell) : F64 :=
  match (K.cast t .float64).getD id c with
  | .float64 x => x
  | _ => F64.zero

/-- Null if there are no values. -/
def ofValues (values : List F64) (result : F64) : Cell :=
  if values = [] then .null else .float64 result

variable (K) in
def aggregateValues (func : AggFunc) (values : List F64) : Cell :=
  match func with
  | .count => .int64 values.length
  | .sum => ofValues values (values.foldl K.add F64.zero)
  | .min => ofValues values (values.foldl K.minimum (F64.infinity false))
  | .max => ofValues values (values.foldl K.maximum (F64.infinity true))
  | .avg => ofValues values (K.div (values.foldl K.add F64.zero) (K.ofUInt64 values.length))

variable (K) in
/-- An aggregate of the cells of a group, nulls left out. -/
def aggregate (func : AggFunc) (t : DataType) (cells : List Cell) : Cell :=
  aggregateValues K func ((cells.filter fun c => !c.isNull).map (number K t))

section

variable (K) (batch : RecordBatch) (groupCols : List String)

def groupCells (agg : String × AggFunc) (k : Row) : List Cell :=
  (batch.rows.filter (keyOf batch.schema groupCols · = k)).map
    (Row.cell · (columnIndex batch.schema agg.1))

/-- One row for each key, in the order in which the keys first appear. -/
def groupedRows (aggs : List (String × AggFunc)) : List Row :=
  (firsts (batch.rows.map (keyOf batch.schema groupCols))).map fun k =>
    k ++ aggs.map fun agg =>
      aggregate K agg.2 (batch.schema.typeAt (columnIndex batch.schema agg.1))
        (groupCells batch groupCols agg k)

def inputNullable (schema : Schema) (name : String) : Bool :=
  (schema.fields[columnIndex schema name]?.map Field.nullable).getD false

def aggField (agg : String × AggFunc) : Field :=
  let fieldName := K.toLowercase s!"{agg.1}_{agg.2.debugName}"
  if agg.2 = .count then Field.new fieldName .int64 false
  else Field.new fieldName .float64 (inputNullable batch.schema agg.1)

def groupTypes : List DataType :=
  groupCols.map fun name => batch.schema.typeAt (columnIndex batch.schema name)

/-- The fields of the result. -/
def groupedFields (aggs : List (String × AggFunc)) : List Field :=
  List.zipWith (fun name t => Field.new name (valueType t) true) groupCols
    (groupTypes batch groupCols) ++ aggs.map (aggField K batch)

end

/-- What arrow documents of its kernels: rows are read back from their encoding, and
every numeric type can be cast to `Float64`, value by value. -/
structure GroupKernels.Lawful (K : GroupKernels) : Prop where
  decode : ∀ types cells,
    List.Forall₂ (fun t c => c.isNull = true ∨ c.hasType t = true) types cells →
    K.decodeRow types (K.encodeRow types cells) = cells
  cast : ∀ t, K.isNumeric (valueType t) = true → ∃ convert, K.cast t .float64 = some convert ∧
    convert .null = .null ∧ ∀ c, c.hasType t = true → ∃ x, convert c = .float64 x

/-- A request on columns that it can be made on. -/
structure ValidRequest (K : GroupKernels) (schema : Schema) (groupCols : List String)
    (aggs : List (String × AggFunc)) : Prop where
  grouped : groupCols ≠ []
  group : ∀ name ∈ groupCols, ∃ index, schema.indexOf name = some index ∧
    K.rowConvertible (schema.typeAt index) = true
  agg : ∀ agg ∈ aggs, ∃ index, schema.indexOf agg.1 = some index ∧
    (agg.2 = .count ∨ K.isNumeric (valueType (schema.typeAt index)) = true)

theorem ValidRequest.groupedFields_ne_nil {K : GroupKernels} {schema : Schema}
    {groupCols : List String} {aggs : List (String × AggFunc)}
    (h : ValidRequest K schema groupCols aggs) (batch : RecordBatch) :
    groupedFields K batch groupCols aggs ≠ [] := by
  cases hcols : groupCols with
  | nil => exact absurd hcols h.grouped
  | cons => simp [groupedFields, groupTypes]

/-- Every null of a column that is counted is marked in its null buffer. -/
def MarkedNulls (input : ArrayBatch) (aggs : List (String × AggFunc)) : Prop :=
  ∀ agg ∈ aggs, agg.2 = .count → ∀ i r, input.batch.rows[i]? = some r →
    (Row.cell r (columnIndex input.batch.schema agg.1)).isNull = true →
      input.isNull (columnIndex input.batch.schema agg.1) i = true

/-! ### The arrays -/

section

variable (K) (input : ArrayBatch) (agg : String × AggFunc)

/-- The array that an aggregate reads. -/
def arrayOf : AggArray :=
  let index := columnIndex input.batch.schema agg.1
  let nullable := inputNullable input.batch.schema agg.1
  if agg.2 = .count then ⟨agg.2, nullable, input.isNull index, input.batch.column index⟩
  else
    let cells := (input.batch.column index).map
      ((K.cast (input.batch.schema.typeAt index) .float64).getD id)
    ⟨agg.2, nullable, fun i => (cells.getD i .null).isNull, cells⟩

def columnOf : AggColumn :=
  let index := columnIndex input.batch.schema agg.1
  ⟨agg.2, inputNullable input.batch.schema agg.1, (arrayOf K input agg).isNull,
    if agg.2 = .count then none
    else some ((input.batch.column index).map (number K (input.batch.schema.typeAt index)))⟩

/-- What a row gives to an aggregate. -/
def valueAt (row : Row × ℕ) : Option F64 :=
  let index := columnIndex input.batch.schema agg.1
  if agg.2 = .count then if input.isNull index row.2 then none else some F64.zero
  else
    let c := Row.cell row.1 index
    if c.isNull then none else some (number K (input.batch.schema.typeAt index) c)

end

section

variable {input : ArrayBatch} {groupCols : List String} {aggs : List (String × AggFunc)}
  {agg : String × AggFunc}

theorem aggArray_eq (hK : K.Lawful) (h : ValidRequest K input.batch.schema groupCols aggs)
    (hagg : agg ∈ aggs) : aggArray K input agg = .ok (arrayOf K input agg) := by
  obtain ⟨index, hindex, hvalid⟩ := h.agg agg hagg
  have hcolumn : columnIndex input.batch.schema agg.1 = index := by rw [columnIndex, hindex]; rfl
  unfold aggArray arrayOf inputNullable
  rw [hindex, hcolumn]
  by_cases hcount : agg.2 = .count
  · simp [orElse, hcount, pure, Except.pure]
  · have hnumeric := hvalid.resolve_left hcount
    obtain ⟨convert, hcast, _⟩ := hK.cast _ hnumeric
    simp [orElse, hcount, hcast, ensure_of _ hnumeric, pure, Except.pure]

variable {r : Row} {t : DataType} {c : Cell}

theorem cell_typed (hr : r ∈ input.batch.rows) (index : ℕ) :
    (Row.cell r index).isNull = true ∨
      (Row.cell r index).hasType (input.batch.schema.typeAt index) = true := by
  have hfits := input.batch.fits r hr
  unfold Schema.typeAt
  cases hfield : input.batch.schema.fields[index]? with
  | none =>
    left
    have hlength : r.length ≤ index := by
      rw [fitsFields_length hfits]
      exact List.getElem?_eq_none_iff.mp hfield
    simp [Row.cell, List.getD_eq_getElem?_getD, hlength, Cell.isNull]
  | some f => exact Field.accepts_cases (accepts_cell hfits hfield)

/-- A cell that is cast is null where it was, and a float otherwise. -/
theorem cast_cell (hK : K.Lawful) (ht : K.isNumeric (valueType t) = true)
    (hc : c.isNull = true ∨ c.hasType t = true) :
    (K.cast t .float64).getD id c = if c.isNull then .null else .float64 (number K t c) := by
  obtain ⟨convert, hcast, hnull, hfloat⟩ := hK.cast t ht
  unfold number
  rw [hcast, Option.getD_some]
  cases hn : c.isNull with
  | true =>
    have : c = .null := by cases c <;> first | rfl | cases hn
    rw [this, hnull, if_pos rfl]
  | false =>
    obtain ⟨x, hx⟩ := hfloat c (hc.resolve_left (by simp [hn]))
    simp [hx]

theorem floatSlot_cast (hK : K.Lawful) (ht : K.isNumeric (valueType t) = true)
    (hc : c.isNull = true ∨ c.hasType t = true) :
    floatSlot ((K.cast t .float64).getD id c) = .ok (number K t c) := by
  have hcast := cast_cell hK ht hc
  cases hn : c.isNull with
  | true =>
    rw [hn, if_pos rfl] at hcast
    rw [number, hcast]
    rfl
  | false =>
    rw [hn, if_neg (by simp)] at hcast
    rw [hcast]
    rfl

theorem downcast_arrayOf (hK : K.Lawful) (h : ValidRequest K input.batch.schema groupCols aggs)
    (hagg : agg ∈ aggs) : (arrayOf K input agg).downcast = .ok (columnOf K input agg) := by
  obtain ⟨index, hindex, hvalid⟩ := h.agg agg hagg
  have hcolumn : columnIndex input.batch.schema agg.1 = index := by rw [columnIndex, hindex]; rfl
  by_cases hcount : agg.2 = .count
  · simp [AggArray.downcast, columnOf, arrayOf, hcount, pure, Except.pure]
  · have hfloats : ((input.batch.column index).map
        ((K.cast (input.batch.schema.typeAt index) .float64).getD id)).mapM floatSlot =
        .ok ((input.batch.column index).map (number K (input.batch.schema.typeAt index))) := by
      rw [List.mapM_map]
      refine mapM_ok_of_forall fun c hc => ?_
      obtain ⟨r, hr, rfl⟩ := List.mem_map.mp hc
      exact floatSlot_cast hK (hvalid.resolve_left hcount) (cell_typed hr index)
    simp [AggArray.downcast, columnOf, arrayOf, hcount, hcolumn, hfloats, pure, Except.pure]

theorem value_columnOf (hK : K.Lawful) (h : ValidRequest K input.batch.schema groupCols aggs)
    (hagg : agg ∈ aggs) {row : Row × ℕ} (hrow : row ∈ input.batch.rows.zipIdx) :
    (columnOf K input agg).value row.2 = valueAt K input agg row := by
  obtain ⟨index, hindex, hvalid⟩ := h.agg agg hagg
  have hcolumn : columnIndex input.batch.schema agg.1 = index := by rw [columnIndex, hindex]; rfl
  have hget : input.batch.rows[row.2]? = some row.1 := List.mk_mem_zipIdx_iff_getElem?.mp hrow
  by_cases hcount : agg.2 = .count
  · simp [AggColumn.value, columnOf, arrayOf, valueAt, hcount]
  · have hcast := cast_cell hK (hvalid.resolve_left hcount)
      (cell_typed (List.mem_of_getElem? hget) index)
    have hnull : ((K.cast (input.batch.schema.typeAt index) .float64).getD id
        (Row.cell row.1 index)).isNull = (Row.cell row.1 index).isNull := by
      rw [hcast]
      cases hn : (Row.cell row.1 index).isNull <;> simp [Cell.isNull]
    simp [AggColumn.value, columnOf, arrayOf, valueAt, hcount, hcolumn, RecordBatch.column,
      List.getD_eq_getElem?_getD, hget, hnull]

/-! ### The cells of the result -/

variable (input groupCols) in
/-- The rows of a group, with their positions. -/
def groupRows (k : Row) : List (Row × ℕ) :=
  input.batch.rows.zipIdx.filter (keyOf input.batch.schema groupCols ·.1 = k)

variable (K input groupCols) in
/-- What they give to an aggregate. -/
def groupValues (agg : String × AggFunc) (k : Row) : List F64 :=
  (groupRows input groupCols k).filterMap (valueAt K input agg)

variable (K input groupCols) in
def encodedKey (r : Row) : K.Encoded :=
  K.encodeRow (groupTypes input.batch groupCols) (keyOf input.batch.schema groupCols r)

theorem decode_encodedKey (hK : K.Lawful) (hr : r ∈ input.batch.rows) :
    K.decodeRow (groupTypes input.batch groupCols) (encodedKey K input groupCols r) =
      keyOf input.batch.schema groupCols r := by
  refine hK.decode _ _ ?_
  rw [keyOf, groupTypes, List.forall₂_map_left_iff, List.forall₂_map_right_iff, List.forall₂_same]
  exact fun name _ => cell_typed hr _

theorem encodedKey_inj (hK : K.Lawful) {r' : Row} (hr : r ∈ input.batch.rows)
    (hr' : r' ∈ input.batch.rows) :
    encodedKey K input groupCols r = encodedKey K input groupCols r' ↔
      keyOf input.batch.schema groupCols r = keyOf input.batch.schema groupCols r' := by
  constructor
  · intro h
    rw [← decode_encodedKey hK hr, h, decode_encodedKey hK hr']
  · intro h
    rw [encodedKey, encodedKey, h]

theorem firsts_encodedKey (hK : K.Lawful) :
    firsts (input.batch.rows.map (encodedKey K input groupCols)) =
      (firsts (input.batch.rows.map (keyOf input.batch.schema groupCols))).map
        (K.encodeRow (groupTypes input.batch groupCols)) := by
  rw [← firsts_map_of_injOn, List.map_map]
  · rfl
  · intro a ha b hb heq
    obtain ⟨r, hr, rfl⟩ := List.mem_map.mp ha
    obtain ⟨r', hr', rfl⟩ := List.mem_map.mp hb
    exact (encodedKey_inj hK hr hr').mp heq

variable (K input groupCols) in
theorem length_groupValues_lt (agg : String × AggFunc) (k : Row) :
    (groupValues K input groupCols agg k).length < 2 ^ 60 := by
  refine lt_of_le_of_lt ?_ input.bounded
  refine (List.length_filterMap_le ..).trans ((List.length_filter_le ..).trans ?_)
  rw [List.length_zipIdx, RecordBatch.numRows]

theorem slotOf_columnOf (hK : K.Lawful) (h : ValidRequest K input.batch.schema groupCols aggs)
    (hagg : agg ∈ aggs) (hr : r ∈ input.batch.rows) :
    slotOf K (columnOf K input agg)
      ((input.batch.rows.map (encodedKey K input groupCols)).zipIdx)
      (encodedKey K input groupCols r) =
    ((groupValues K input groupCols agg (keyOf input.batch.schema groupCols r)).foldl
        (combine K agg.2) (identity agg.2),
      (groupValues K input groupCols agg (keyOf input.batch.schema groupCols r)).length) := by
  have hvalues : ((((input.batch.rows.map (encodedKey K input groupCols)).zipIdx).filter
      (·.1 = encodedKey K input groupCols r)).filterMap ((columnOf K input agg).value ·.2)) =
      groupValues K input groupCols agg (keyOf input.batch.schema groupCols r) := by
    rw [List.zipIdx_map, List.filter_map, List.filterMap_map, groupValues]
    have hfilter : input.batch.rows.zipIdx.filter ((fun p : K.Encoded × ℕ =>
        decide (p.1 = encodedKey K input groupCols r)) ∘
          Prod.map (encodedKey K input groupCols) id) =
        groupRows input groupCols (keyOf input.batch.schema groupCols r) := by
      refine List.filter_congr fun row hrow => ?_
      have hmem : row.1 ∈ input.batch.rows :=
        List.mem_of_getElem? (List.mk_mem_zipIdx_iff_getElem?.mp hrow)
      exact decide_eq_decide.mpr (encodedKey_inj hK hmem hr)
    rw [hfilter]
    refine List.filterMap_congr fun row hrow => ?_
    exact value_columnOf hK h hagg (List.mem_of_mem_filter hrow)
  rw [slotOf, hvalues, foldl_absorb, Nat.zero_add]
  rfl

/-- The cell of a finished value. -/
def finishedCell : Option AggValue → Cell
  | some (.int n) => .int64 n
  | some (.float x) => .float64 x
  | none => .null

theorem finishAggColumn_eq (agg : String × AggFunc) (slots : List (F64 × ℕ)) :
    finishAggColumn K (slots.map (finish K agg.2)) agg (inputNullable input.batch.schema agg.1) =
      (aggField K input.batch agg, slots.map fun slot => finishedCell (finish K agg.2 slot)) := by
  obtain ⟨name, func⟩ := agg
  cases func <;>
    simp only [finishAggColumn, aggField, reduceCtorEq, if_true, if_false, List.map_map] <;>
    refine Prod.ext rfl (List.map_congr_left fun slot _ => ?_) <;>
    first | rfl | (by_cases hn : slot.2 ≠ 0 <;> simp [finish, emit, hn, finishedCell])

theorem finishedCell_finish (func : AggFunc) {values : List F64} (h : values.length < 2 ^ 60) :
    finishedCell (finish K func (values.foldl (combine K func) (identity func), values.length)) =
      aggregateValues K func values := by
  have hemit : ∀ x, finishedCell (emit x values.length) = ofValues values x := by
    intro x
    unfold emit ofValues
    cases values <;> rfl
  have hcount : ((values.length : ℤ)).bmod (2 ^ 64) = values.length :=
    Int.bmod_eq_of_le (by omega) (by omega)
  cases func <;> simp only [finish, hemit, hcount] <;> rfl

theorem buildResultBatch_eq {seen : List (K.Encoded × ℕ)} {keys : List K.Encoded}
    {s : GroupState K} (h : Aligned (aggs.map (columnOf K input)) seen keys s) :
    buildResultBatch K groupCols (groupTypes input.batch groupCols) aggs s
      (aggs.map fun agg => inputNullable input.batch.schema agg.1) =
    RecordBatch.tryNew ⟨groupedFields K input.batch groupCols aggs, []⟩
      (keys.map fun k => K.decodeRow (groupTypes input.batch groupCols) k ++ aggs.map fun agg =>
        finishedCell (finish K agg.2 (slotOf K (columnOf K input agg) seen k))) := by
  have hfinished : List.zipWith
      (fun agg (acc : ColumnarAccumulator × Bool) =>
        finishAggColumn K (acc.1.finishAll K) agg acc.2) aggs
      (s.state.zip (aggs.map fun agg => inputNullable input.batch.schema agg.1)) =
      aggs.map fun agg => (aggField K input.batch agg,
        (keys.map (slotOf K (columnOf K input agg) seen)).map fun slot =>
          finishedCell (finish K agg.2 slot)) := by
    rw [h.state, List.map_map, List.zip_map', List.zipWith_map_right, List.zipWith_self]
    refine List.map_congr_left fun agg _ => ?_
    rw [← finishAggColumn_eq, Function.comp_apply, finishAll_ofSlots]
    rfl
  unfold buildResultBatch
  simp only [hfinished, List.map_map, h.keyRows]
  refine congrArg₂ RecordBatch.tryNew rfl ?_
  have hkeys : ∀ f : K.Encoded → Row, keys.map f = keys.zipIdx.map (f ∘ Prod.fst) := by
    intro f
    rw [← List.map_map, List.zipIdx_map_fst]
  rw [hkeys]
  refine List.map_congr_left fun row hrow => ?_
  have hget : keys[row.2]? = some row.1 := List.mk_mem_zipIdx_iff_getElem?.mp hrow
  refine congrArg _ (List.map_congr_left fun agg _ => ?_)
  simp [List.getD_eq_getElem?_getD, hget]

theorem groupBy_eq (hK : K.Lawful) (h : ValidRequest K input.batch.schema groupCols aggs) :
    groupBy K input groupCols aggs =
      RecordBatch.tryNew ⟨groupedFields K input.batch groupCols aggs, []⟩
        ((firsts (input.batch.rows.map (keyOf input.batch.schema groupCols))).map fun k =>
          k ++ aggs.map fun agg =>
            aggregateValues K agg.2 (groupValues K input groupCols agg k)) := by
  have hindices : (groupCols.mapM fun name =>
      orElse (input.batch.schema.indexOf name) (missingColumn name)) =
      .ok (groupCols.map (columnIndex input.batch.schema)) := by
    refine mapM_ok_of_forall fun name hname => ?_
    obtain ⟨index, hindex, _⟩ := h.group name hname
    rw [columnIndex, hindex]
    rfl
  have harrays : aggs.mapM (aggArray K input) = .ok (aggs.map (arrayOf K input)) :=
    mapM_ok_of_forall fun agg hagg => aggArray_eq hK h hagg
  have hcolumns : (aggs.map (arrayOf K input)).mapM AggArray.downcast =
      .ok (aggs.map (columnOf K input)) := by
    rw [List.mapM_map]
    exact mapM_ok_of_forall fun agg hagg => downcast_arrayOf hK h hagg
  have hconvertible : (groupTypes input.batch groupCols).all K.rowConvertible = true := by
    rw [groupTypes, List.all_map, List.all_eq_true]
    intro name hname
    obtain ⟨index, hindex, hconvertible⟩ := h.group name hname
    rw [Function.comp_apply, columnIndex, hindex]
    exact hconvertible
  have htypes : (groupCols.map (columnIndex input.batch.schema)).map input.batch.schema.typeAt =
      groupTypes input.batch groupCols := List.map_map ..
  have hrows : (input.batch.rows.map fun r => K.encodeRow (groupTypes input.batch groupCols)
      ((groupCols.map (columnIndex input.batch.schema)).map (Row.cell r))) =
      input.batch.rows.map (encodedKey K input groupCols) := by
    refine List.map_congr_left fun r _ => ?_
    rw [List.map_map]
    rfl
  have hnullable : (aggs.map (arrayOf K input)).map AggArray.inputNullable =
      aggs.map fun agg => inputNullable input.batch.schema agg.1 := by
    rw [List.map_map]
    refine List.map_congr_left fun agg _ => ?_
    rw [Function.comp_apply, arrayOf]
    dsimp only
    split <;> rfl
  have hstart : (aggs.map fun agg => ColumnarAccumulator.new agg.2) =
      (aggs.map (columnOf K input)).map fun column => .new column.func := by
    rw [List.map_map]
    rfl
  have haligned := aligned_foldl (aggs.map (columnOf K input))
    (input.batch.rows.map (encodedKey K input groupCols)).zipIdx
  rw [List.zipIdx_map_fst] at haligned
  rw [groupBy, ensure_of _ h.grouped, ok_bind, hindices, ok_bind, harrays, ok_bind]
  simp only [htypes, ensure_of _ hconvertible, ok_bind, hcolumns, hrows, hnullable, hstart]
  rw [buildResultBatch_eq haligned, firsts_encodedKey hK, List.map_map]
  refine congrArg _ (List.map_congr_left fun k hk => ?_)
  obtain ⟨r, hr, rfl⟩ := List.mem_map.mp (mem_firsts.mp hk)
  rw [Function.comp_apply]
  refine congrArg₂ _ (decode_encodedKey hK hr) (List.map_congr_left fun agg hagg => ?_)
  have hslot := slotOf_columnOf hK h hagg hr
  rw [encodedKey] at hslot
  rw [hslot]
  exact finishedCell_finish agg.2 (length_groupValues_lt K input groupCols agg _)

/-! ### The result fits its fields -/

theorem hasType_valueType (h : c.hasType t = true) : c.hasType (valueType t) = true := by
  cases t <;> simpa [valueType, Cell.hasType] using h

theorem key_fits (hr : r ∈ input.batch.rows) :
    fitsFields (List.zipWith (fun name t => Field.new name (valueType t) true) groupCols
      (groupTypes input.batch groupCols)) (keyOf input.batch.schema groupCols r) = true := by
  rw [fitsFields_iff, groupTypes, keyOf, List.zipWith_map_right, List.zipWith_self,
    List.forall₂_map_left_iff, List.forall₂_map_right_iff, List.forall₂_same]
  intro name _
  have htyped := cell_typed hr (columnIndex input.batch.schema name)
  unfold Field.accepts
  split
  · rfl
  · exact hasType_valueType (htyped.resolve_left ‹_›)

/-- A group without values is one of nulls only. -/
theorem inputNullable_of_groupValues (h : ValidRequest K input.batch.schema groupCols aggs)
    (hagg : agg ∈ aggs) (hcount : agg.2 ≠ .count) (hr : r ∈ input.batch.rows)
    (hnil : groupValues K input groupCols agg (keyOf input.batch.schema groupCols r) = []) :
    inputNullable input.batch.schema agg.1 = true := by
  obtain ⟨index, hindex, _⟩ := h.agg agg hagg
  have hcolumn : columnIndex input.batch.schema agg.1 = index := by rw [columnIndex, hindex]; rfl
  obtain ⟨i, hi⟩ := List.mem_iff_getElem?.mp hr
  have hvalue : valueAt K input agg (r, i) = none := by
    rw [groupValues, List.filterMap_eq_nil_iff] at hnil
    refine hnil (r, i) (List.mem_filter.mpr ⟨List.mk_mem_zipIdx_iff_getElem?.mpr hi, ?_⟩)
    exact decide_eq_true rfl
  have hnull : (Row.cell r index).isNull = true := by
    simpa [valueAt, hcount, hcolumn] using hvalue
  obtain ⟨hlt, _⟩ := List.findIdx?_eq_some_iff_getElem.mp hindex
  have haccepts := accepts_cell (input.batch.fits r hr) (List.getElem?_eq_getElem hlt)
  rw [inputNullable, hcolumn, List.getElem?_eq_getElem hlt]
  simpa [Field.accepts, hnull] using haccepts

theorem agg_fits (h : ValidRequest K input.batch.schema groupCols aggs) (hagg : agg ∈ aggs)
    (hr : r ∈ input.batch.rows) :
    (aggField K input.batch agg).accepts (aggregateValues K agg.2
      (groupValues K input groupCols agg (keyOf input.batch.schema groupCols r))) = true := by
  have hlength := length_groupValues_lt K input groupCols agg
    (keyOf input.batch.schema groupCols r)
  have hnullable := fun hcount => inputNullable_of_groupValues h hagg hcount hr
  obtain ⟨name, func⟩ := agg
  generalize groupValues K input groupCols (name, func) _ = values at *
  have hvalues : func ≠ .count → ∀ x, (aggField K input.batch (name, func)).accepts
      (ofValues values x) = true := by
    intro hcount x
    unfold ofValues
    split
    · simpa [aggField, hcount, Field.accepts, Cell.isNull, Field.new] using hnullable hcount ‹_›
    · simp [aggField, hcount, Field.accepts, Cell.isNull, Cell.hasType, Field.new]
  cases func with
  | count =>
    have hfits : ((-(2 ^ 63) : ℤ) ≤ values.length) ∧ ((values.length : ℤ) < 2 ^ 63) := by omega
    simpa [aggField, aggregateValues, Field.accepts, Cell.isNull, Cell.hasType, Field.new]
      using hfits
  | sum => exact hvalues (by decide) _
  | min => exact hvalues (by decide) _
  | max => exact hvalues (by decide) _
  | avg => exact hvalues (by decide) _

/-! ### Counts -/

theorem length_filter_eq_iff {α : Type*} {p q : α → Bool} {xs : List α}
    (h : ∀ x ∈ xs, p x = true → q x = true) :
    (xs.filter q).length = (xs.filter p).length ↔ ∀ x ∈ xs, q x = true → p x = true := by
  have hfilter : (xs.filter q).filter p = xs.filter p := by
    rw [List.filter_filter]
    refine List.filter_congr fun x hx => ?_
    cases hp : p x with
    | false => rfl
    | true => exact h x hx hp
  rw [← hfilter, eq_comm, List.length_filter_eq_length_iff]
  simp

theorem groupCells_eq (agg : String × AggFunc) (k : Row) :
    groupCells input.batch groupCols agg k = (groupRows input groupCols k).map fun row =>
      Row.cell row.1 (columnIndex input.batch.schema agg.1) := by
  have hrows : input.batch.rows.filter (keyOf input.batch.schema groupCols · = k) =
      (groupRows input groupCols k).map Prod.fst := by
    conv_lhs => rw [← List.zipIdx_map_fst 0 input.batch.rows, List.filter_map]
    rfl
  rw [groupCells, hrows, List.map_map]
  rfl

theorem groupValues_eq (hcount : agg.2 ≠ .count) (k : Row) :
    groupValues K input groupCols agg k =
      ((groupCells input.batch groupCols agg k).filter fun c => !c.isNull).map
        (number K (input.batch.schema.typeAt (columnIndex input.batch.schema agg.1))) := by
  rw [groupCells_eq, List.filter_map, List.map_map, ← List.filterMap_eq_map,
    List.filterMap_filter]
  refine List.filterMap_congr fun row _ => ?_
  cases hnull : (Row.cell row.1 (columnIndex input.batch.schema agg.1)).isNull <;>
    simp [valueAt, hcount, hnull]

/-- The count is right exactly if each null of the group is marked. -/
theorem count_eq_iff (hcount : agg.2 = .count) (k : Row) :
    (groupValues K input groupCols agg k).length =
      ((groupCells input.batch groupCols agg k).filter fun c => !c.isNull).length ↔
    ∀ row ∈ groupRows input groupCols k,
      (Row.cell row.1 (columnIndex input.batch.schema agg.1)).isNull = true →
        input.isNull (columnIndex input.batch.schema agg.1) row.2 = true := by
  have hvalues : (groupValues K input groupCols agg k).length =
      ((groupRows input groupCols k).filter fun row =>
        !input.isNull (columnIndex input.batch.schema agg.1) row.2).length := by
    rw [groupValues, List.length_filterMap_eq_countP, ← List.countP_eq_length_filter]
    refine List.countP_congr fun row _ => ?_
    cases hnull : input.isNull (columnIndex input.batch.schema agg.1) row.2 <;>
      simp [valueAt, hcount, hnull]
  rw [hvalues, groupCells_eq, List.filter_map, List.length_map, length_filter_eq_iff]
  · simp only [Function.comp_apply, Bool.not_eq_true']
    refine forall₂_congr fun row _ => ?_
    cases (Row.cell row.1 (columnIndex input.batch.schema agg.1)).isNull <;> simp
  · intro row hrow hcell
    have hget := List.mk_mem_zipIdx_iff_getElem?.mp (List.mem_of_mem_filter hrow)
    cases hnull : input.isNull (columnIndex input.batch.schema agg.1) row.2 with
    | false => rfl
    | true =>
      have := input.sound _ _ _ hget hnull
      simp [this] at hcell

theorem groupedRows_eq_iff :
    ((firsts (input.batch.rows.map (keyOf input.batch.schema groupCols))).map fun k =>
      k ++ aggs.map fun agg => aggregateValues K agg.2 (groupValues K input groupCols agg k)) =
      groupedRows K input.batch groupCols aggs ↔ MarkedNulls input aggs := by
  have hagg : ∀ agg k, aggregateValues K agg.2 (groupValues K input groupCols agg k) =
      aggregate K agg.2 (input.batch.schema.typeAt (columnIndex input.batch.schema agg.1))
        (groupCells input.batch groupCols agg k) ↔
      (agg.2 = .count → ∀ row ∈ groupRows input groupCols k,
        (Row.cell row.1 (columnIndex input.batch.schema agg.1)).isNull = true →
          input.isNull (columnIndex input.batch.schema agg.1) row.2 = true) := by
    intro agg k
    by_cases hcount : agg.2 = .count
    · rw [← count_eq_iff (K := K) hcount k]
      simp [aggregate, aggregateValues, hcount]
    · simp [aggregate, groupValues_eq hcount, hcount]
  rw [groupedRows, List.map_inj_left]
  simp only [List.append_cancel_left_eq, List.map_inj_left, hagg]
  constructor
  · intro h agg hmem hcount i r hget hnull
    refine h (keyOf input.batch.schema groupCols r) ?_ agg hmem hcount (r, i) ?_ hnull
    · exact mem_firsts.mpr (List.mem_map_of_mem (List.mem_of_getElem? hget))
    · exact List.mem_filter.mpr ⟨List.mk_mem_zipIdx_iff_getElem?.mpr hget, decide_eq_true rfl⟩
  · intro h k _ agg hmem hcount row hrow hnull
    have hget := List.mk_mem_zipIdx_iff_getElem?.mp (List.mem_of_mem_filter hrow)
    exact h agg hmem hcount row.2 row.1 hget hnull

end

/-- Grouping always returns a batch, with the fields of the request. Its rows are those
that the groups determine exactly if every null of a counted column is marked. -/
theorem group_by_exact {K : GroupKernels} (hK : K.Lawful) (input : ArrayBatch)
    {groupCols : List String} {aggs : List (String × AggFunc)}
    (h : ValidRequest K input.batch.schema groupCols aggs) :
    ∃ result, groupBy K input groupCols aggs = .ok result ∧
      result.schema.fields = groupedFields K input.batch groupCols aggs ∧
      (result.rows = groupedRows K input.batch groupCols aggs ↔ MarkedNulls input aggs) := by
  rw [groupBy_eq hK h]
  rw [RecordBatch.tryNew_of_ne (h.groupedFields_ne_nil _)]
  refine ⟨_, RecordBatch.tryNewWithOptions_of_fits ?_, rfl, groupedRows_eq_iff⟩
  intro row hrow
  obtain ⟨k, hk, rfl⟩ := List.mem_map.mp hrow
  obtain ⟨r, hr, rfl⟩ := List.mem_map.mp (mem_firsts.mp hk)
  refine fitsFields_append (key_fits hr) ?_
  rw [fitsFields_iff, List.forall₂_map_left_iff, List.forall₂_map_right_iff, List.forall₂_same]
  exact fun agg hagg => agg_fits h hagg hr

/-- A batch of arrays that mark each of their nulls. -/
def ArrayBatch.ofBatch (batch : RecordBatch) (bounded : batch.numRows < 2 ^ 60) : ArrayBatch where
  batch := batch
  isNull column i := batch.rows[i]?.elim false fun r => (Row.cell r column).isNull
  sound column i r hr h := by simpa [hr] using h
  bounded := bounded

/-- Kernels whose row format is the row itself, with numbers of type `Float64` only. -/
def plainGroupKernels : GroupKernels where
  cast source target :=
    match source, target with
    | .dictionary _ value, target => if value = target then some id else none
    | source, .dictionary _ value => if value = source then some id else none
    | source, target => if source = target then some id else none
  rowConvertible _ := true
  ipcByteLen batch := batch.numRows
  ipcCrc32c _ := 0
  pack_eq key value f h := by cases value <;> simp_all
  unpack_eq key value := by simp
  isNumeric t := t = .float64
  Encoded := Row
  decEq := inferInstance
  encodeRow _ cells := cells
  decodeRow _ cells := cells
  add _ y := y
  div x _ := x
  minimum x y := if y.lt x then y else x
  maximum x y := if x.lt y then y else x
  ofUInt64 _ := F64.zero
  toLowercase s := .ofList (s.toList.map Char.toLower)

theorem plainGroupKernels_lawful : plainGroupKernels.Lawful where
  decode _ _ _ := rfl
  cast t ht := by
    refine ⟨id, ?_, rfl, fun c hc => ?_⟩
    · cases t <;> simp_all [plainGroupKernels, valueType]
    · cases t <;> simp [plainGroupKernels, valueType] at ht
      · cases c <;> simp_all [Cell.hasType]
      · subst ht
        cases c <;> simp_all [Cell.hasType]

/-- One key with a number, a null and the number again, and one with a null only. -/
def amountBatch : RecordBatch where
  schema := ⟨[Field.new "k" .utf8 false, Field.new "x" .float64 true], []⟩
  rows := [[.utf8 "a", .float64 F64.zero], [.utf8 "b", .null], [.utf8 "a", .null],
    [.utf8 "a", .float64 F64.zero]]
  fits := by decide

theorem amountBatch_request :
    ValidRequest plainGroupKernels amountBatch.schema ["k"] [("x", .count), ("x", .sum)] where
  grouped := by decide
  group name hname := by
    obtain rfl := List.mem_singleton.mp hname
    exact ⟨0, by decide, rfl⟩
  agg agg hagg := by
    simp only [List.mem_cons, List.not_mem_nil, or_false] at hagg
    rcases hagg with rfl | rfl <;> exact ⟨1, by decide, .inr (by decide)⟩

theorem group_by_exact_amounts :
    ∃ result, groupBy plainGroupKernels (.ofBatch amountBatch (by decide)) ["k"]
        [("x", .count), ("x", .sum)] = .ok result ∧
      result.rows = [[.utf8 "a", .int64 2, .float64 F64.zero], [.utf8 "b", .int64 0, .null]] := by
  obtain ⟨result, hresult, _, hiff⟩ := group_by_exact plainGroupKernels_lawful
    (.ofBatch amountBatch (by decide)) amountBatch_request
  refine ⟨result, hresult, (hiff.mpr ?_).trans (by decide)⟩
  intro agg _ _ i r hr hnull
  have hr : amountBatch.rows[i]? = some r := hr
  simpa [ArrayBatch.ofBatch, hr] using hnull

/-- A column of type `Null`: its values are null, but its array has no null buffer. -/
def nullColumn : ArrayBatch where
  batch :=
    { schema := ⟨[Field.new "k" .utf8 false, Field.new "n" (.other "Null") true], []⟩
      rows := [[.utf8 "a", .null]]
      fits := by decide }
  isNull _ _ := false
  sound _ _ _ _ h := by cases h
  bounded := by decide

/-- The null is counted. -/
theorem group_by_counts_null :
    ∃ result, groupBy plainGroupKernels nullColumn ["k"] [("n", .count)] = .ok result ∧
      result.rows = [[.utf8 "a", .int64 1]] ∧
      groupedRows plainGroupKernels nullColumn.batch ["k"] [("n", .count)] =
        [[.utf8 "a", .int64 0]] := by
  refine ⟨⟨⟨[Field.new "k" .utf8 true, Field.new "n_count" .int64 false], []⟩,
    [[.utf8 "a", .int64 1]], by decide⟩, ?_, rfl, by decide⟩
  rfl

end StrataDB.Query
