import StrataDB.Txn.GroupedReads

/-! The results of requests with counts and integer aggregates. Where the sums on the
way fit, a grouped result is one row for each key, in the order in which the keys first
appear among the live rows, with the exact aggregates of the rows with that key. Which
sums are on the way depends on how the rows are divided into files. -/

namespace StrataDB.Txn

open Lib Arrow Index Storage Query

/-! ### What a request means -/

/-- A count, or a sum, minimum or maximum of an integer column. -/
def Aggregate.IsInteger (schema : Schema) (a : Aggregate) : Prop :=
  a.function = .count ∨ a.function ∈ [.sum, .minimum, .maximum] ∧
    ∃ f ∈ schema.fields, f.name = a.column ∧ f.dataType = .int64

/-- The exact value of an integer aggregate; null if there is no value. -/
def AggregateFunction.exact : AggregateFunction → List ResultValue → ResultValue
  | .count, values => .uint64 (nonNull values)
  | .sum, values => if intsOf values = [] then .null else .int64 (intsOf values).sum
  | .minimum, values => (intsOf values).min?.elim .null .int64
  | .maximum, values => (intsOf values).max?.elim .null .int64
  | .average, _ => .null

section

variable (schema : Schema) (request : GroupByRequest)

/-- The values of the group columns. -/
def keyOf (r : Row) : List ResultValue := request.groupBy.map (valueOf schema r)

/-- The values of a column in the rows with a key. -/
def inputsOf (column : String) (key : List ResultValue) (rows : List Row) : List ResultValue :=
  (rows.filter (keyOf schema request · = key)).map (valueOf schema · column)

/-- One row for each key, in the order in which the keys first appear. -/
def exactRows (rows : List Row) : List GroupedRow :=
  (firsts (rows.map (keyOf schema request))).map fun key =>
    ⟨key, request.aggregates.map fun a =>
      a.function.exact (inputsOf schema request a.column key rows)⟩

end

/-! ### Typed values -/

variable {f : Field} {t : LogicalType} {r : Row} {q : DatasetSchema} {a : Aggregate}
  {o : AggregateOutput} {pairs : List (Aggregate × AggregateState)} {outputs : List AggregateOutput}
  {files : List (List Row)}

theorem resultValue_of_accepts {c : Cell} (h : f.accepts c = true)
    (ht : logicalType f.dataType = .ok t) (hs : t.isScalar = true) :
    ∃ v, resultValue f.dataType c = .ok v ∧ v.isVector = false ∧
      (f.dataType = .int64 → v = .null ∨ ∃ z, v = .int64 z ∧ FitsInt64 z) := by
  obtain ⟨name, dataType, nullable, _⟩ := f
  dsimp only at ht ⊢
  unfold logicalType at ht
  split at ht
  case h_6 =>
    cases ht
    cases hs
  case h_7 => cases ht
  all_goals
    rcases Field.accepts_cases h with hnull | htype
    · cases c <;> cases hnull
      exact ⟨.null, rfl, rfl, fun _ => .inl rfl⟩
    · cases c <;> simp only [Cell.hasType, Bool.false_eq_true] at htype
      refine ⟨_, rfl, rfl, ?_⟩
      simp_all [FitsInt64]

variable {P : Platform} {F : FloatOps} {s : Snapshot} {cat : Catalog} {store : Store}
  {request : GroupByRequest} {rows : List Row}

theorem valueOf_eq {schema : Schema} {column : String} {v : ResultValue}
    (h : columnValue schema r column = .ok v) : valueOf schema r column = v := by
  rw [valueOf, h]
  rfl

theorem columnValue_of_field (hw : WellNamed s.schema) (hf : f ∈ s.schema.fields)
    (ht : logicalType f.dataType = .ok t) (hs : t.isScalar = true)
    (hr : fitsFields (fullFields s.schema) r = true) :
    columnValue (fullSchema s.schema) r f.name =
        .ok (valueOf (fullSchema s.schema) r f.name) ∧
      (valueOf (fullSchema s.schema) r f.name).isVector = false ∧
      (f.dataType = .int64 → valueOf (fullSchema s.schema) r f.name = .null ∨
        ∃ z, valueOf (fullSchema s.schema) r f.name = .int64 z ∧ FitsInt64 z) := by
  obtain ⟨k, hk⟩ := List.mem_iff_getElem?.mp hf
  have hfull : (fullSchema s.schema).fields[k]? = some f := fullFields_getElem_logical hk
  obtain ⟨v, hv, hrest⟩ := resultValue_of_accepts (accepts_cell hr hfull) ht hs
  have hvalue : columnValue (fullSchema s.schema) r f.name = .ok v := by
    rw [columnValue, indexOf_of_getElem hw.full_nodup hfull, orElse, ok_bind, Schema.typeAt, hfull]
    exact hv
  rw [valueOf_eq hvalue]
  exact ⟨hvalue, hrest⟩

/-- A column of the query schema is the dataset's column of this name. -/
theorem logicalType_of_has (hw : WellNamed s.schema) (hquery : s.querySchema = .ok q)
    (hf : f ∈ s.schema.fields) (h : q.Has f.name t) : logicalType f.dataType = .ok t := by
  obtain ⟨col, hcol, hname, rfl⟩ := h
  obtain ⟨g, hg, hgname, htype⟩ := exists_field_of_column hquery hcol
  obtain rfl : g = f := List.inj_on_of_nodup_map hw.nodup hg hf (hgname.trans hname)
  exact htype

/-! ### Integer aggregates -/

/-- The first state of an aggregate. -/
def AggregateFunction.template : AggregateFunction → AggregateState
  | .count => .count 0
  | .sum => .int64Sum none
  | .minimum => .int64Minimum none
  | .maximum => .int64Maximum none
  | .average => .float64Average (Binary.zero _ _) 0

/-- The type of an integer aggregate's output. -/
def AggregateFunction.integerType : AggregateFunction → LogicalType
  | .count => .uint64
  | _ => .int64

/-- The aggregates of a request with their first states. -/
def integerPairs (request : GroupByRequest) : List (Aggregate × AggregateState) :=
  request.aggregates.map fun a => (a, a.function.template)

/-- A validated integer aggregate: its output and the column it takes. -/
theorem Aggregate.IsInteger.output (hw : WellNamed s.schema) (hquery : s.querySchema = .ok q)
    (ha : a.IsInteger s.schema) {o : LogicalType} (h : q.Has a.column t)
    (ho : a.function.outputType t = some o) :
    o = a.function.integerType ∧ t.isScalar = true ∧ (a.function ≠ .count → t = .int64) := by
  rcases ha with hcount | ⟨hfun, f, hf, hname, htype⟩
  · rw [hcount] at ho ⊢
    simp only [AggregateFunction.outputType, Option.ite_none_right_eq_some] at ho
    exact ⟨(Option.some.inj ho.2).symm, ho.1, fun hne => absurd rfl hne⟩
  · rw [← hname] at h
    have hlog := logicalType_of_has hw hquery hf h
    rw [htype] at hlog
    cases hlog
    refine ⟨?_, rfl, fun _ => rfl⟩
    simp only [List.mem_cons, List.not_mem_nil, or_false] at hfun
    rcases hfun with hfun | hfun | hfun <;> rw [hfun] at ho ⊢ <;> cases ho <;> rfl

theorem Aggregate.IsInteger.template_new {schema : Schema} (ha : a.IsInteger schema)
    (ho : o.dataType = a.function.integerType) :
    AggregateState.new a o = .ok a.function.template := by
  unfold AggregateState.new
  rcases ha with hfun | ⟨hfun, -⟩
  · rw [ho, hfun]
    rfl
  · simp only [List.mem_cons, List.not_mem_nil, or_false] at hfun
    rcases hfun with hfun | hfun | hfun <;> rw [ho, hfun] <;> rfl

theorem Aggregate.IsInteger.isExact {schema : Schema} (ha : a.IsInteger schema) :
    a.function.template.IsExact := by
  rcases ha with hfun | ⟨hfun, -⟩
  · rw [hfun]
    exact .inl rfl
  · simp only [List.mem_cons, List.not_mem_nil, or_false] at hfun
    rcases hfun with hfun | hfun | hfun <;> rw [hfun]
    exacts [.inr (.inl rfl), .inr (.inr (.inl rfl)), .inr (.inr (.inr rfl))]

theorem AggregateFunction.finish_template {f : AggregateFunction} (hf : f ≠ .average)
    (values : List ResultValue) : (f.template.exact values).finish F = f.exact values := by
  cases f with
  | count => rfl
  | sum =>
    simp only [template, AggregateState.exact, AggregateState.finish, exact, reduce_add]
    split <;> rfl
  | minimum =>
    simp only [template, AggregateState.exact, AggregateState.finish, exact, reduce_min]
  | maximum =>
    simp only [template, AggregateState.exact, AggregateState.finish, exact, reduce_max]
  | average => exact absurd rfl hf

theorem AggregateFunction.checkValue_exact {f : AggregateFunction} (ho : o.dataType = f.integerType)
    (values : List ResultValue) : GroupByResult.checkValue o (f.exact values) = .ok () := by
  have hint : ∀ x : Option ℤ, o.dataType = .int64 →
      GroupByResult.checkValue o (x.elim .null .int64) = .ok () := by
    intro x h
    cases x <;> simp [GroupByResult.checkValue, ensure, h, ResultValue.logicalType]
  cases f with
  | count => simp [GroupByResult.checkValue, ensure, exact, ResultValue.logicalType, ho,
    integerType]
  | sum =>
    rw [exact]
    split
    · exact hint none ho
    · exact hint (some _) ho
  | minimum => exact hint _ ho
  | maximum => exact hint _ ho
  | average => exact hint none ho

/-! ### A validated request -/

section

variable {q : DatasetSchema} {outputs : List AggregateOutput}

/-- The facts about a valid request that the grouping of rows rests on. -/
structure IntegerRequest (s : Snapshot) (request : GroupByRequest)
    (outputs : List AggregateOutput) : Prop where
  integer : ∀ a ∈ request.aggregates, a.IsInteger s.schema
  output : List.Forall₂ (fun a o => o.dataType = a.function.integerType) request.aggregates
    outputs
  names : ∃ names, GroupByResult.checkNames [] request.groupBy = .ok names ∧
    GroupByResult.checkOutputs names outputs = .ok ()
  typed : ∀ rows : List Row, (∀ r ∈ rows, fitsFields (fullFields s.schema) r = true) →
    RowsTyped (fullSchema s.schema) request (integerPairs request) rows

theorem integerRequest_of_valid (hw : WellNamed s.schema) (hquery : s.querySchema = .ok q)
    (hv : q.GroupByValid request outputs)
    (hint : ∀ a ∈ request.aggregates, a.IsInteger s.schema) :
    IntegerRequest s request outputs := by
  have hfield : ∀ {c t}, q.Has c t →
      ∃ f ∈ s.schema.fields, f.name = c ∧ logicalType f.dataType = .ok t := by
    rintro c t ⟨col, hcol, rfl, rfl⟩
    exact exists_field_of_column hquery hcol
  refine ⟨hint, ?_, hv.names, fun rows hfits => ⟨fun r hr c hc => ?_, fun r hr p hp => ?_⟩⟩
  · refine ((List.forall₂_and_left _ _).mpr ⟨hint, hv.aggregates⟩).imp fun a o h => ?_
    obtain ⟨ha, -, t, ht, ho⟩ := h
    exact (ha.output hw hquery ht ho).1
  · obtain ⟨t, ht, hscalar⟩ := hv.keys c hc
    obtain ⟨f, hf, rfl, htype⟩ := hfield ht
    obtain ⟨hvalue, hvector, -⟩ := columnValue_of_field hw hf htype hscalar (hfits r hr)
    exact ⟨hvalue, hvector⟩
  · obtain ⟨a, ha, rfl⟩ := List.mem_map.mp hp
    obtain ⟨o, -, -, t, ht, ho⟩ := exists_right_of_forall₂ hv.aggregates ha
    obtain ⟨-, hscalar, hint64⟩ := (hint a ha).output hw hquery ht ho
    obtain ⟨f, hf, hname, htype⟩ := hfield ht
    obtain ⟨hvalue, -, hvalues⟩ := columnValue_of_field hw hf htype hscalar (hfits r hr)
    rw [hname] at hvalue hvalues
    refine ⟨hvalue, ?_⟩
    by_cases hcount : a.function = .count
    · rw [hcount]
      trivial
    · have hdata : f.dataType = .int64 := by
        rw [hint64 hcount] at htype
        unfold logicalType at htype
        split at htype <;> first | assumption | cases htype
      rcases (hint a ha).isExact with h | h | h | h <;> simp only [h] <;>
        first | exact trivial | exact hvalues hdata

theorem IntegerRequest.templates (h : IntegerRequest s request outputs) :
    aggregateTemplates request outputs = .ok (request.aggregates.map (·.function.template)) := by
  have hall := (List.forall₂_and_left _ _).mpr ⟨h.integer, h.output⟩
  have hfst : (request.aggregates.zip outputs).map Prod.fst = request.aggregates :=
    List.map_fst_zip hall.length_eq.le
  have hnew : ∀ p ∈ request.aggregates.zip outputs,
      AggregateState.new p.1 p.2 = .ok p.1.function.template := by
    intro p hp
    obtain ⟨ha, ho⟩ := (List.forall₂_iff_zip.mp hall).2 hp
    exact ha.template_new ho
  conv_rhs => rw [← hfst, List.map_map]
  exact mapM_ok_of_forall hnew

theorem integerPairs_fst (request : GroupByRequest) :
    request.aggregates = (integerPairs request).map Prod.fst := by
  simp [integerPairs, Function.comp_def]

theorem integerPairs_snd (request : GroupByRequest) :
    (integerPairs request).map Prod.snd = request.aggregates.map (·.function.template) := by
  simp [integerPairs]

theorem IntegerRequest.isExact (h : IntegerRequest s request outputs) :
    ∀ p ∈ integerPairs request, p.2.IsExact := by
  intro p hp
  obtain ⟨a, ha, rfl⟩ := List.mem_map.mp hp
  exact (h.integer a ha).isExact

end

/-! ### Keys as values -/

theorem GroupKey.values_injective : Function.Injective GroupKey.values := by
  intro k k' h
  have hk := GroupKey.new_values k
  rw [h, GroupKey.new_values] at hk
  exact (Except.ok.inj hk).symm

theorem RowsTyped.values_rowKey {schema : Schema} (h : RowsTyped schema request pairs rows)
    (hr : r ∈ rows) : (rowKey schema request r).values = keyOf schema request r := by
  rw [rowKey, GroupKey.values, List.map_map]
  exact List.map_congr_left fun c hc => GroupKeyValue.value_ofScalar (h.key r hr c hc).2

theorem RowsTyped.groupValues_eq {schema : Schema} (h : RowsTyped schema request pairs rows)
    (column : String) (k : GroupKey) :
    groupValues schema request column k rows = inputsOf schema request column k.values rows := by
  refine congrArg (List.map _) (List.filter_congr fun r hr => ?_)
  simp only [← h.values_rowKey hr, GroupKey.values_injective.eq_iff]

theorem IntegerRequest.map_row (h : IntegerRequest s request outputs)
    (hfits : ∀ r ∈ rows, fitsFields (fullFields s.schema) r = true) :
    (groupsOf (fullSchema s.schema) request (integerPairs request) rows).map
        (fun p => p.2.row F) = exactRows (fullSchema s.schema) request rows := by
  have htyped := h.typed rows hfits
  have hkeys : rows.map (keyOf (fullSchema s.schema) request) =
      (rows.map (rowKey (fullSchema s.schema) request)).map GroupKey.values := by
    rw [List.map_map]
    exact List.map_congr_left fun r hr => (htyped.values_rowKey hr).symm
  rw [exactRows, hkeys, firsts_map GroupKey.values_injective, groupsOf, List.map_map, List.map_map]
  refine List.map_congr_left fun k _ => ?_
  simp only [Function.comp_apply, GroupState.row, groupOf, integerPairs, List.map_map,
    GroupedRow.mk.injEq, true_and]
  refine List.map_congr_left fun a ha => ?_
  rw [Function.comp_apply, Function.comp_apply, htyped.groupValues_eq]
  refine AggregateFunction.finish_template ?_ _
  rintro havg
  rcases h.integer a ha with hfun | ⟨hfun, -⟩
  · rw [havg] at hfun
    cases hfun
  · rw [havg] at hfun
    revert hfun
    decide

theorem IntegerRequest.new_exactRows (h : IntegerRequest s request outputs)
    (hfits : ∀ r ∈ rows, fitsFields (fullFields s.schema) r = true) :
    GroupByResult.new request.groupBy outputs (exactRows (fullSchema s.schema) request rows) =
      .ok ⟨request.groupBy, outputs, exactRows (fullSchema s.schema) request rows⟩ := by
  obtain ⟨names, hnames, houtputs⟩ := h.names
  have hrows : (exactRows (fullSchema s.schema) request rows).zipIdx.forM
      (GroupByResult.checkRow request.groupBy outputs) = .ok () := by
    rw [forM_eq_ok]
    rintro ⟨row, i⟩ hrow
    obtain ⟨key, hkey, rfl⟩ := List.mem_map.mp (List.fst_mem_of_mem_zipIdx hrow)
    obtain ⟨r, hr, rfl⟩ := List.mem_map.mp (mem_firsts.mp hkey)
    have hvector : (keyOf (fullSchema s.schema) request r).any ResultValue.isVector = false := by
      rw [List.any_eq_false]
      intro v hv
      obtain ⟨c, hc, rfl⟩ := List.mem_map.mp hv
      simpa using ((h.typed rows hfits).key r hr c hc).2
    simp only [GroupByResult.checkRow]
    rw [ensure_of _ ⟨by simp [keyOf], by simpa using h.output.length_eq⟩, ok_bind,
      ensure_of _ hvector, ok_bind, forM_eq_ok]
    rintro ⟨o, v⟩ hov
    rw [List.zip_map_right] at hov
    obtain ⟨⟨o', a⟩, hoa, heq⟩ := List.mem_map.mp hov
    cases heq
    exact AggregateFunction.checkValue_exact
      ((List.forall₂_iff_zip.mp h.output.flip).2 hoa) _
  rw [GroupByResult.new, hnames, ok_bind, houtputs, ok_bind, hrows]
  rfl

theorem IntegerRequest.answerGroupBy (h : IntegerRequest s request outputs)
    (hquery : s.querySchema = .ok q) (hval : q.validateGroupBy request = .ok outputs)
    (hfits : ∀ r ∈ rows, fitsFields (fullFields s.schema) r = true)
    {group : List AggregateState → Except QueryError Groups} {err : Option QueryError}
    (hgroup : group ((integerPairs request).map Prod.snd) = report err
      (groupsOf (fullSchema s.schema) request (integerPairs request) rows)) :
    s.answerGroupBy F request group = report err
      ⟨request.groupBy, outputs, exactRows (fullSchema s.schema) request rows⟩ := by
  unfold Snapshot.answerGroupBy
  rw [hquery, ok_bind, hval, ok_bind, h.templates, ok_bind, ← integerPairs_snd, hgroup]
  cases err with
  | none => exact (congrArg _ (h.map_row hfits)).trans (h.new_exactRows hfits)
  | some e => rfl

/-! ### Both paths -/

section

variable {q : DatasetSchema} {outputs : List AggregateOutput}

/-- The first sum that does not fit when the rows are divided into these files. -/
def firstOverflow (schema : Schema) (request : GroupByRequest) (files : List (List Row)) :
    Option QueryError :=
  filesOverflow schema request (integerPairs request) [] files

theorem IntegerRequest.groupFiles (h : IntegerRequest s request outputs) {files : List (List Row)}
    (hfits : ∀ r ∈ files.flatten, fitsFields (fullFields s.schema) r = true)
    (hlen : files.flatten.length < u64Bound) :
    groupFiles F request ((integerPairs request).map Prod.snd) (fullSchema s.schema) files =
      report (firstOverflow (fullSchema s.schema) request files)
        (groupsOf (fullSchema s.schema) request (integerPairs request) files.flatten) :=
  groupFiles_report [] (integerPairs_fst request) h.isExact (h.typed _ hfits) hlen
    keyOverflow_nil

theorem IntegerRequest.groupRows (h : IntegerRequest s request outputs)
    (hfits : ∀ r ∈ rows, fitsFields (fullFields s.schema) r = true)
    (hlen : rows.length < u64Bound) :
    rows.foldlM (addRow F request ((integerPairs request).map Prod.snd) (fullSchema s.schema)) [] =
      report (firstOverflow (fullSchema s.schema) request [rows])
        (groupsOf (fullSchema s.schema) request (integerPairs request) rows) := by
  rw [firstOverflow, filesOverflow_singleton]
  exact (h.typed rows hfits).groupRows (integerPairs_fst request) h.isExact hlen

/-- The live rows of a valid version fit its columns, and so do those a filter keeps. -/
theorem Snapshot.Valid.groupedFiles_fits (hv : s.Valid P cat) :
    ∀ r ∈ (s.groupedFiles cat request).flatten, fitsFields (fullFields s.schema) r = true := by
  intro r hr
  rw [groupedFiles_flatten] at hr
  exact Catalog.fits hv (List.mem_of_mem_filter (List.mem_of_mem_filter hr))

theorem groupedFiles_length (s : Snapshot) (cat : Catalog) (request : GroupByRequest) :
    (s.groupedFiles cat request).flatten.length ≤ (cat.liveRows s.tombstones).length := by
  rw [groupedFiles_flatten]
  exact List.filter_sublist.length_le

theorem IntegerRequest.groupByQuery (h : IntegerRequest s request outputs)
    (hv : s.Valid P cat) (hs : cat.StoredIn store) (hquery : s.querySchema = .ok q)
    (hval : q.validateGroupBy request = .ok outputs)
    (hlen : (cat.liveRows s.tombstones).length < u64Bound) :
    s.groupByQuery P F store request =
      report (firstOverflow (fullSchema s.schema) request (s.groupedFiles cat request))
        ⟨request.groupBy, outputs, exactRows (fullSchema s.schema) request
          (s.groupedFiles cat request).flatten⟩ := by
  rw [hv.groupByQuery hs]
  exact h.answerGroupBy hquery hval hv.groupedFiles_fits
    (h.groupFiles hv.groupedFiles_fits ((groupedFiles_length s cat request).trans_lt hlen))

theorem IntegerRequest.groupByQuery_unstaged {t : Transaction}
    (h : IntegerRequest t.base request outputs) (hv : t.base.Valid P cat)
    (hs : cat.StoredIn store) (hquery : t.base.querySchema = .ok q)
    (hval : q.validateGroupBy request = .ok outputs)
    (hlen : (cat.liveRows t.base.tombstones).length < u64Bound)
    (hpending : t.pending = []) (htombstones : t.pendingTombstones = []) :
    t.groupByQuery P F store request =
      report (firstOverflow (fullSchema t.base.schema) request
          [(t.base.groupedFiles cat request).flatten])
        ⟨request.groupBy, outputs, exactRows (fullSchema t.base.schema) request
          (t.base.groupedFiles cat request).flatten⟩ := by
  obtain ⟨batches, hbatches, ho⟩ := Transaction.overlayBatches_eq_ok hv hs (by simp [hpending])
    (show t.pending.flatMap RecordBatch.rows = ([] : List Row).map _ by simp [hpending])
  have hkept : cat.keptRows t.base t.pendingTombstones ++ [] = cat.liveRows t.base.tombstones := by
    rw [List.append_nil, Catalog.keptRows, htombstones]
    simp
  rw [hkept] at ho
  rw [Transaction.groupByQuery, hbatches, engine_ok, ok_bind,
    ho.groupByQueryOverlay hv.wellNamed, ← groupedFiles_flatten]
  exact h.answerGroupBy hquery hval hv.groupedFiles_fits
    (h.groupRows hv.groupedFiles_fits ((groupedFiles_length t.base cat request).trans_lt hlen))

end

/-! ### Exactness -/

section

variable {schema : Schema} {whole : List Row}
  (htyped : RowsTyped schema request (integerPairs request) whole)
  (hblocks : ∀ a ∈ request.aggregates, a.function = .sum →
    ∀ key block, block <:+: whole.filter (keyOf schema request · = key) →
      FitsInt64 (intsOf (block.map (valueOf schema · a.column))).sum)

include htyped hblocks

/-- Where the sums over all blocks of consecutive rows of a key fit, so do those over
consecutive rows. -/
theorem keyOverflow_of_blocks (h : rows <:+: whole) (k : GroupKey) :
    keyOverflow schema request (integerPairs request) k rows = none := by
  rw [keyOverflow, List.findSome?_eq_none_iff]
  intro p hp
  obtain ⟨a, ha, rfl⟩ := List.mem_map.mp hp
  rw [(htyped.mono h.subset).groupValues_eq]
  cases hfun : a.function with
  | sum => exact if_pos (hblocks a ha hfun k.values _ (h.filter _))
  | _ => rfl

/-- However the rows are divided, all sums on the way fit. -/
theorem filesOverflow_of_blocks (before : List Row) (h : before ++ files.flatten <+: whole) :
    filesOverflow schema request (integerPairs request) before files = none := by
  induction files generalizing before with
  | nil => rfl
  | cons rows files ih =>
    rw [List.flatten_cons, ← List.append_assoc] at h
    have hfirst : before ++ rows <+: whole := (List.prefix_append _ _).trans h
    rw [filesOverflow, Option.or_eq_none_iff, Option.or_eq_none_iff, rowsOverflow,
      List.findSome?_eq_none_iff, List.findSome?_eq_none_iff]
    refine ⟨⟨fun rs hrs => ?_, fun k _ => ?_⟩, ih _ h⟩
    · have hinfix : rs <:+: whole := ((List.mem_inits _ _).mp hrs).isInfix.trans
        ((List.suffix_append _ _).isInfix.trans hfirst.isInfix)
      rw [Option.bind_eq_none_iff]
      exact fun r _ => keyOverflow_of_blocks htyped hblocks hinfix _
    · exact keyOverflow_of_blocks htyped hblocks hfirst.isInfix k

end

/-- An exact value other than a count is null exactly when no input has a value. -/
theorem IntegerRequest.exact_eq_null (h : IntegerRequest s request outputs)
    (hfits : ∀ r ∈ rows, fitsFields (fullFields s.schema) r = true) (ha : a ∈ request.aggregates)
    (hne : a.function ≠ .count) (key : List ResultValue) :
    a.function.exact (inputsOf (fullSchema s.schema) request a.column key rows) = .null ↔
      nonNull (inputsOf (fullSchema s.schema) request a.column key rows) = 0 := by
  have htakes : ∀ v ∈ inputsOf (fullSchema s.schema) request a.column key rows,
      v = .null ∨ ∃ z, v = .int64 z := by
    intro v hv
    obtain ⟨r, hr, rfl⟩ := List.mem_map.mp hv
    have htyped := ((h.typed rows hfits).input r (List.mem_of_mem_filter hr) _
      (List.mem_map_of_mem ha)).2
    rcases (h.integer a ha).resolve_left hne with ⟨hfun, -⟩
    simp only [List.mem_cons, List.not_mem_nil, or_false] at hfun
    rcases hfun with hfun | hfun | hfun <;> rw [hfun] at htyped <;>
      exact htyped.imp_right fun ⟨z, hz, _⟩ => ⟨z, hz⟩
  generalize inputsOf (fullSchema s.schema) request a.column key rows = values at htakes ⊢
  have hints : intsOf values = [] ↔ nonNull values = 0 := by
    rw [intsOf, List.filterMap_eq_nil_iff, nonNull, List.countP_eq_zero]
    refine forall₂_congr fun v hv => ?_
    rcases htakes v hv with rfl | ⟨z, rfl⟩ <;> simp
  rw [← hints]
  rcases (h.integer a ha).resolve_left hne with ⟨hfun, -⟩
  simp only [List.mem_cons, List.not_mem_nil, or_false] at hfun
  rcases hfun with hfun | hfun | hfun <;> rw [hfun, AggregateFunction.exact]
  · simp
  · rw [← List.min?_eq_none_iff]
    cases (intsOf values).min? <;> simp
  · rw [← List.max?_eq_none_iff]
    cases (intsOf values).max? <;> simp

/-- Grouped results are exact: one row for each key among the live rows that satisfy the
filter, in the order of their first appearance, with the exact aggregates of the rows
with that key; and there is a result if every sum over a block of consecutive rows of a
group fits. -/
theorem grouped_results_exact {sys : System} (hreach : (system P).Reachable sys) {b : Snapshot}
    (hb : b ∈ sys.dataset.current :: sys.held) {q : DatasetSchema} (hquery : b.querySchema = .ok q)
    {outputs : List AggregateOutput} (hval : q.validateGroupBy request = .ok outputs)
    (hint : ∀ a ∈ request.aggregates, a.IsInteger b.schema) :
    ∃ whole, b.scan P sys.dataset.store (fullSchema b.schema) = .ok whole ∧
      ∃ rows, rows = whole.rows.filter (selects (fullSchema b.schema) request.filter) ∧
      (∀ result, b.groupByQuery P F sys.dataset.store request = .ok result →
        result = ⟨request.groupBy, outputs, exactRows (fullSchema b.schema) request rows⟩) ∧
      (∀ a ∈ request.aggregates, a.function ≠ .count → ∀ key,
        (a.function.exact (inputsOf (fullSchema b.schema) request a.column key rows) = .null ↔
          nonNull (inputsOf (fullSchema b.schema) request a.column key rows) = 0)) ∧
      ((∀ a ∈ request.aggregates, a.function = .sum → ∀ key block,
          block <:+: rows.filter (keyOf (fullSchema b.schema) request · = key) →
            FitsInt64 (intsOf (block.map (valueOf (fullSchema b.schema) · a.column))).sum) →
        ∃ result, b.groupByQuery P F sys.dataset.store request = .ok result) := by
  obtain ⟨cat, hv, hstored⟩ := (System.inv_of_reachable hreach).snapshot_valid hb
  obtain ⟨whole, hwhole, hrows⟩ := hv.scan_full hstored
  have hreq := integerRequest_of_valid hv.wellNamed hquery
    (DatasetSchema.validateGroupBy_eq_ok hval) hint
  have hanswer := hreq.groupByQuery (F := F) hv hstored hquery hval
    (liveRows_length_lt hreach hb hv)
  refine ⟨whole, hwhole, _, rfl, ?_, ?_, ?_⟩ <;> rw [hrows, ← groupedFiles_flatten]
  · exact fun result hresult => (report_eq_ok.mp (hanswer.symm.trans hresult)).2.symm
  · exact fun a ha hne key => hreq.exact_eq_null hv.groupedFiles_fits ha hne key
  · intro hblocks
    have hnone := filesOverflow_of_blocks (hreq.typed _ hv.groupedFiles_fits) hblocks
      [] List.prefix_rfl
    exact ⟨_, hanswer.trans (report_eq_ok.mpr ⟨hnone, rfl⟩)⟩

/-- Movements on accounts. -/
def ledgerSchema : Schema :=
  ⟨[Field.new "account" .int64 false, Field.new "amount" .int64 true], []⟩

def ledgerBatch (movements : List (ℤ × Option ℤ)) : RecordBatch :=
  batchOf ledgerSchema (movements.map fun m => [.int64 m.1, m.2.elim .null .int64])

/-- Two files with movements on two accounts. -/
def ledgerLabels : List Label :=
  insertLabels (ledgerBatch [(7, some 5), (8, none)]) ++
    [.begin, .insert 1 (ledgerBatch [(7, some (-2)), (7, none)])] ++ commitLabels 1 2

/-- Totals by account. -/
def totals : GroupByRequest where
  groupBy := ["account"]
  aggregates := [⟨"amount", .count, "n"⟩, ⟨"amount", .sum, "total"⟩]
  filter := none

/-- Float arithmetic for requests without float columns. -/
def noFloatOps : FloatOps where
  add a _ := a
  div a _ := a
  ofInt64 _ := Binary.zero _ _
  ofUInt64 _ := Binary.zero _ _

theorem totals_isInteger {s : Snapshot} (h : s.schema = ledgerSchema) :
    ∀ a ∈ totals.aggregates, a.IsInteger s.schema := by
  rw [h]
  intro a ha
  rcases List.mem_cons.mp ha with rfl | ha
  · exact .inl rfl
  · rw [List.mem_singleton.mp ha]
    exact .inr ⟨by decide, Field.new "amount" .int64 true, by decide, rfl, rfl⟩

theorem grouped_results_exact_ledger :
    ∃ s whole outputs, plainRun ledgerSchema ledgerLabels = some s ∧
      s.dataset.current.scan plainPlatform s.dataset.store (fullSchema ledgerSchema) =
        .ok whole ∧
      s.dataset.current.groupByQuery plainPlatform noFloatOps s.dataset.store totals =
        .ok ⟨["account"], outputs, exactRows (fullSchema ledgerSchema) totals whole.rows⟩ ∧
      exactRows (fullSchema ledgerSchema) totals whole.rows =
        [⟨[.int64 7], [.uint64 2, .int64 3]⟩, ⟨[.int64 8], [.uint64 0, .null]⟩] := by
  have hrun : (plainRun ledgerSchema ledgerLabels).map (fun s =>
      (s.dataset.current.schema,
        (s.dataset.current.querySchema.toOption.bind fun q =>
          (q.validateGroupBy totals).toOption.map fun outputs => (q, outputs)).isSome,
        (s.dataset.current.groupByQuery plainPlatform noFloatOps s.dataset.store
          totals).toOption.map GroupByResult.rows)) =
      some (ledgerSchema, true,
        some [⟨[.int64 7], [.uint64 2, .int64 3]⟩, ⟨[.int64 8], [.uint64 0, .null]⟩]) := by
    decide +kernel
  obtain ⟨s, hs, hout⟩ := Option.map_eq_some_iff.mp hrun
  simp only [Prod.mk.injEq] at hout
  obtain ⟨hschema, hvalid, hresult⟩ := hout
  obtain ⟨⟨q, outputs⟩, hvalid⟩ := Option.isSome_iff_exists.mp hvalid
  obtain ⟨q, hq, hvalid⟩ := Option.bind_eq_some_iff.mp hvalid
  obtain ⟨outputs, houtputs, -⟩ := Option.map_eq_some_iff.mp hvalid
  obtain ⟨result, hresult, hrows⟩ := Option.map_eq_some_iff.mp hresult
  rw [toOption_eq_some] at hq houtputs hresult
  obtain ⟨whole, hwhole, rows, hfilter, hexact, -⟩ := grouped_results_exact (F := noFloatOps)
    (reachable_runOn hs) List.mem_cons_self hq houtputs (totals_isInteger hschema)
  have hkept : rows = whole.rows := hfilter.trans (List.filter_eq_self.mpr fun _ _ => rfl)
  obtain rfl := hexact result hresult
  rw [hschema] at hwhole hrows hresult
  rw [hkept] at hrows hresult
  exact ⟨s, whole, outputs, hs, hwhole, hresult, hrows⟩

end StrataDB.Txn
