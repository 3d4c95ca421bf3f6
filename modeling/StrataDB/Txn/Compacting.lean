import StrataDB.Lib.Runs
import StrataDB.Txn.Committing
import StrataDB.Txn.Compaction

/-! What a compaction writes: the live rows of its source, cut into maximal runs
of consecutive row ids, and one segment over their vectors. -/

namespace StrataDB.Txn

open Lib Arrow Index Storage

/-! ### Runs -/

/-- The saturating successor is the successor for distinct ids. -/
theorem eq_saturatingSucc_iff {x last : ℕ} (hx : x < u64Bound) (hlast : last < u64Bound)
    (hne : x ≠ last) : x = saturatingSucc last ↔ x = last + 1 := by
  unfold saturatingSucc
  omega

section

variable {α : Type*} {f : α → ℕ} {xs : List α}

theorem drop_take_middle (before cur rest : List α) :
    ((before ++ cur ++ rest).drop before.length).take cur.length = cur := by
  rw [List.append_assoc, List.drop_left, List.take_left]

/-- The loop with a run in progress: `cur` is that run, `before` is done. -/
theorem splitRuns_spec (hlt : ∀ x ∈ xs, f x < u64Bound) (hn : (xs.map f).Nodup)
    (before cur rest : List α) (hxs : xs = before ++ cur ++ rest) (hne : cur ≠ []) (first : ℕ)
    (hcur : cur.map f = List.range' first cur.length) :
    ∃ g gs, List.Forall₂ (fun run g => (xs.drop run.1).take run.2 = g ∧ g.length = run.2)
        (splitRuns before.length cur.length (first + cur.length - 1) (rest.map f)) (g :: gs) ∧
      g.head? = cur.head? ∧ MaximalRuns f (cur ++ rest) (g :: gs) := by
  induction rest generalizing before cur first with
  | nil =>
    refine ⟨cur, [], .cons ⟨?_, rfl⟩ .nil, rfl, ?_⟩
    · rw [hxs]
      exact drop_take_middle before cur []
    · rw [List.append_nil]
      exact .single hne hcur
  | cons x rest ih =>
    have hpos : 0 < cur.length := List.length_pos_of_ne_nil hne
    have hlast : first + cur.length - 1 ∈ cur.map f := by
      rw [hcur, List.mem_range'_1]
      omega
    have hxmem : x ∈ xs := by simp [hxs]
    have hxlast : f x ≠ first + cur.length - 1 := by
      intro heq
      rw [hxs, List.map_append, List.nodup_append] at hn
      refine hn.2.2 _ (List.mem_map.mpr ?_) (f x) (by simp) heq.symm
      obtain ⟨y, hy, hfy⟩ := List.mem_map.mp hlast
      exact ⟨y, List.mem_append_right _ hy, hfy⟩
    have hlastlt : first + cur.length - 1 < u64Bound := by
      obtain ⟨y, hy, hfy⟩ := List.mem_map.mp hlast
      rw [← hfy]
      exact hlt y (by simp [hxs, hy])
    have hsucc := eq_saturatingSucc_iff (hlt x hxmem) hlastlt hxlast
    rw [List.map_cons, splitRuns]
    split
    · -- The id continues the run.
      rename_i heq
      have hx : f x = first + cur.length := by
        have := hsucc.mp heq
        omega
      have hxs' : xs = before ++ (cur ++ [x]) ++ rest := by rw [hxs]; simp
      obtain ⟨g, gs, hslices, hhead, hruns⟩ := ih _ _ hxs' (by simp) _ (map_append_range' hcur hx)
      refine ⟨g, gs, ?_, ?_, ?_⟩
      · rw [List.length_append, List.length_singleton] at hslices
        rwa [hx]
      · rw [hhead, List.head?_append_of_ne_nil _ hne]
      · rwa [List.append_assoc, List.singleton_append] at hruns
    · -- The id opens another run.
      rename_i heq
      have hxs' : xs = before ++ cur ++ [x] ++ rest := by rw [hxs]; simp
      obtain ⟨g, gs, hslices, hhead, hruns⟩ := ih _ _ hxs' (by simp) (f x) (by simp)
      refine ⟨cur, g :: gs, .cons ⟨?_, rfl⟩ ?_, rfl, ?_⟩
      · rw [hxs]
        exact drop_take_middle before cur (x :: rest)
      · simpa using hslices
      · refine hruns.cons hne hcur fun a ha b hb => ?_
        rw [hhead] at hb
        cases hb
        have hfa : f a ∈ (List.range' first cur.length).getLast? := by
          rw [← hcur, List.getLast?_map, Option.mem_def.mp ha]
          rfl
        have := getLast?_range'_add_one (Nat.pos_iff_ne_zero.mp hpos) hfa
        intro hb'
        exact heq (hsucc.mpr (by omega))

/-- The runs of a list of distinct ids are its maximal ones. -/
theorem runsOf_spec (hlt : ∀ x ∈ xs, f x < u64Bound) (hn : (xs.map f).Nodup) :
    ∃ groups, List.Forall₂ (fun run g => (xs.drop run.1).take run.2 = g ∧ g.length = run.2)
      (runsOf (xs.map f)) groups ∧ MaximalRuns f xs groups := by
  cases xs with
  | nil => exact ⟨[], .nil, .nil f⟩
  | cons x rest =>
    obtain ⟨g, gs, hslices, _, hruns⟩ := splitRuns_spec hlt hn [] [x] rest rfl
      (by simp) (f x) (by simp)
    exact ⟨g :: gs, by simpa [runsOf] using hslices, hruns⟩

end

/-! ### The rewritten batch -/

/-- The user columns of a stored row. -/
def logicalRow (schema : Schema) (r : Row) : Row := r.take schema.fields.length

variable {schema : Schema} {P : Platform} {batch logical stored : RecordBatch} {first attempt : ℕ}
  {p : (ℕ × ℕ) × ℕ} {rowIds : List ℕ} {inputs : ℕ → FileInput} {d d' : Dataset}

theorem cell_logicalRow {k : ℕ} (hk : k < schema.fields.length) (r : Row) :
    Row.cell (logicalRow schema r) k = Row.cell r k := by
  simp [logicalRow, Row.cell, List.getD_eq_getElem?_getD, hk]

theorem detachHidden_of_stored (hw : WellNamed schema)
    (h : StoresFields schema batch.schema.fields) :
    ∃ part, detachHidden P schema batch = .ok part ∧
      part.1.rows = batch.rows.map (logicalRow schema) ∧
      part.2.1 = batch.rows.map (fun r => .uint64 (storedRowId r)) ∧
      part.2.2 = batch.rows.map (fun r => .int64 (storedTimestamp r)) := by
  obtain ⟨logical, hcast, _, hrows⟩ := castBatch_of_stored (K := P.kernels) hw h
    (forall₂_range_of_getElem fun _ _ hk => fullFields_getElem_logical hk)
  refine ⟨(logical, batch.rows.map fun r => .uint64 (storedRowId r),
    batch.rows.map fun r => .int64 (storedTimestamp r)), ?_, ?_, rfl, rfl⟩
  · unfold detachHidden
    simp only [typedColumn_rowId hw h, typedColumn_timestamp hw h, hcast, ok_bind, List.map_map]
    rfl
  · rw [hrows]
    refine List.map_congr_left fun r hr => ?_
    exact map_cell_range r (by rw [length_of_fits (h.fits_iff.mp (batch.fits r hr))]; omega)

/-- Putting the hidden columns back gives the stored rows. -/
theorem zipWith_hidden {rows : List Row}
    (hfits : ∀ r ∈ rows, fitsFields (fullFields schema) r = true) :
    List.zipWith (fun r (hidden : Cell × Cell) => r ++ [hidden.1, hidden.2])
      (rows.map (logicalRow schema))
      ((rows.map fun r => Cell.uint64 (storedRowId r)).zip
        (rows.map fun r => Cell.int64 (storedTimestamp r))) = rows := by
  rw [List.zip_map', List.zipWith_map, List.zipWith_self]
  conv_rhs => rw [← List.map_id rows]
  exact List.map_congr_left fun r hr => (row_eq (hfits r hr)).symm

/-- The batches of a compaction: the only step that can fail is the encoding of
the user columns. The stored schema has no metadata. -/
theorem compactedBatches_spec {batches : List RecordBatch} (hw : WellNamed schema)
    (hbs : ∀ b ∈ batches, StoresFields schema b.schema.fields) :
    ∃ logical : RecordBatch, logical.schema = schema ∧
      logical.rows = (batches.flatMap RecordBatch.rows).map (logicalRow schema) ∧
      (∀ e, encodeUserColumns P.kernels logical = .error e →
        compactedBatches P schema batches = .error e) ∧
      ∀ encoded, encodeUserColumns P.kernels logical = .ok encoded →
        ∃ stored, compactedBatches P schema batches = .ok (logical, stored) ∧
          stored.schema = ⟨encoded.schema.fields ++ [rowIdField, timestampField], []⟩ ∧
          stored.rows = batches.flatMap RecordBatch.rows ∧
          StoresFields schema stored.schema.fields := by
  obtain ⟨parts, hparts, hforall⟩ := mapM_ok_of_exists fun b hb =>
    detachHidden_of_stored (P := P) hw (hbs b hb)
  set rows := batches.flatMap RecordBatch.rows with hrowsdef
  have hfits : ∀ r ∈ rows, fitsFields (fullFields schema) r = true := by
    intro r hr
    obtain ⟨b, hb, hr⟩ := List.mem_flatMap.mp hr
    exact (hbs b hb).fits_iff.mp (b.fits r hr)
  have hlogical : (parts.map Prod.fst).flatMap RecordBatch.rows = rows.map (logicalRow schema) := by
    rw [List.flatMap_map, hrowsdef, List.map_flatMap]
    exact flatMap_eq_of_forall₂ (hforall.imp fun _ _ h => h.1)
  have hids : parts.flatMap (fun part => part.2.1) =
      rows.map fun r => .uint64 (storedRowId r) := by
    rw [hrowsdef, List.map_flatMap]
    exact flatMap_eq_of_forall₂ (hforall.imp fun _ _ h => h.2.1)
  have hts : parts.flatMap (fun part => part.2.2) =
      rows.map fun r => .int64 (storedTimestamp r) := by
    rw [hrowsdef, List.map_flatMap]
    exact flatMap_eq_of_forall₂ (hforall.imp fun _ _ h => h.2.2)
  have hlogfits : ∀ r ∈ rows.map (logicalRow schema), fitsFields schema.fields r = true := by
    intro _ hr
    obtain ⟨r, hmem, rfl⟩ := List.mem_map.mp hr
    rw [fitsFields_iff, logicalRow]
    have hprefix := List.forall₂_take schema.fields.length (fitsFields_iff.mp (hfits r hmem))
    rwa [fullFields, List.take_left] at hprefix
  have hconcat : RecordBatch.concat schema (parts.map Prod.fst) =
      .ok ⟨schema, rows.map (logicalRow schema), hlogfits⟩ := by
    rw [RecordBatch.concat, RecordBatch.tryNewWithOptions_eq_ok]
    exact ⟨rfl, hlogical.symm⟩
  refine ⟨⟨schema, rows.map (logicalRow schema), hlogfits⟩, rfl, rfl, fun e he => ?_,
    fun encoded henc => ?_⟩
  · unfold compactedBatches
    simp only [hparts, hconcat, lift, ok_bind, he, error_bind]
  · obtain ⟨hencrows, _, hencfields⟩ := encodeUserColumns_spec henc
    have hstores := storesFields_append_hidden hw hencfields
    let stored : RecordBatch := ⟨⟨encoded.schema.fields ++ [rowIdField, timestampField], []⟩, rows,
      fun r hr => hstores.fits_iff.mpr (hfits r hr)⟩
    have hnew : RecordBatch.tryNew stored.schema rows = .ok stored :=
      RecordBatch.tryNew_eq_ok.mpr ⟨by simp [stored], rfl, rfl⟩
    refine ⟨stored, ?_, rfl, rfl, hstores⟩
    unfold compactedBatches
    simp only [hparts, hconcat, lift, ok_bind, henc, hids, hts, hencrows, zipWith_hidden hfits]
    rw [hnew]
    rfl

/-! ### Its vectors -/

/-- The vector column is where the logical schema has it. -/
theorem StoresFields.indexOf_vector {stored : Schema} (h : StoresFields schema stored.fields) :
    stored.indexOf vectorColumn = schema.indexOf vectorColumn := by
  have hname : ∀ fs : List Field, fs.findIdx? (fun f => f.name == vectorColumn) =
      (fs.map Field.name).findIdx? (· == vectorColumn) := by
    intro fs
    rw [List.findIdx?_map]
    rfl
  have hhidden : ([rowIdField, timestampField].map Field.name).findIdx? (· == vectorColumn) =
      none := by decide
  unfold Schema.indexOf
  rw [hname, hname, h.names, fullFields, List.map_append, List.findIdx?_append, hhidden]
  simp

theorem vectorInsert_of_finite {rowId : ℕ} {c : Cell}
    (h : ∀ xs, c = .vector xs → xs.all Binary.isFinite = true) :
    vectorInsert rowId c = .ok ((Cell.toVector? c).map fun xs => ⟨rowId, xs⟩) := by
  cases c with
  | vector xs =>
    rw [vectorInsert, if_pos (h xs rfl)]
    rfl
  | _ => rfl

/-- Reading the vectors of a stored batch fails only for the column's type. -/
theorem buildVectorInsertsWithPhysicalRowIds_of_stored (hw : WellNamed schema)
    (h : StoresFields schema batch.schema.fields) (hfin : VectorsFinite schema batch.rows) :
    buildVectorInsertsWithPhysicalRowIds batch =
      (vectorIndex batch.schema).map fun _ => batch.rows.filterMap (vectorOf schema) := by
  unfold buildVectorInsertsWithPhysicalRowIds
  cases hindex : vectorIndex batch.schema with
  | error e => rfl
  | ok index =>
    have hidx : schema.indexOf vectorColumn = index := by
      rw [← h.indexOf_vector]
      exact vectorIndex_eq_ok hindex
    cases index with
    | none =>
      have hnone : batch.rows.filterMap (vectorOf schema) = [] :=
        List.filterMap_eq_nil_iff.mpr fun r _ => by rw [vectorOf, hidx]; rfl
      simp only [ok_bind, Except.map, hnone]
      rfl
    | some k =>
      have hzip : batch.rows.zip (batch.rows.map fun r => Cell.uint64 (storedRowId r)) =
          batch.rows.map fun r => (r, Cell.uint64 (storedRowId r)) := by
        conv_lhs => rw [← List.map_id batch.rows, List.map_map, List.zip_map']
        rfl
      have hmap : (batch.rows.map fun r => (r, Cell.uint64 (storedRowId r))).mapM
          (fun p : Row × Cell => vectorInsert (Cell.toRowId p.2) (Row.cell p.1 k)) =
            .ok (batch.rows.map (vectorOf schema)) := by
        rw [List.mapM_map]
        refine mapM_ok_of_forall fun r hr => ?_
        show vectorInsert (storedRowId r) (Row.cell r k) = _
        rw [vectorInsert_of_finite (hfin k hidx r hr), vectorOf, hidx]
        rfl
      have hreduce : (batch.rows.map (vectorOf schema)).reduceOption =
          batch.rows.filterMap (vectorOf schema) := by
        rw [List.reduceOption, List.filterMap_map]
        rfl
      simp only [ok_bind, typedColumn_rowId hw h, hzip, Except.map]
      rw [hmap, ok_bind, hreduce]
      rfl

/-! ### Its files -/

/-- The ends of a slice of consecutive ids. -/
theorem getD_of_slice (ids : List ℕ) (start : ℕ) {len : ℕ} (hlen : len ≠ 0)
    (h : (ids.drop start).take len = List.range' first len) :
    ids.getD start 0 = first ∧ ids.getD (start + len - 1) 0 = first + len - 1 := by
  have hget : ∀ i < len, ids[start + i]? = some (first + i) := by
    intro i hi
    have := congrArg (fun l : List ℕ => l[i]?) h
    simpa [List.getElem?_take, hi] using this
  refine ⟨?_, ?_⟩
  · have h0 := hget 0 (by omega)
    rw [Nat.add_zero, Nat.add_zero] at h0
    rw [List.getD_eq_getElem?_getD, h0, Option.getD_some]
  · rw [List.getD_eq_getElem?_getD, show start + len - 1 = start + (len - 1) by omega,
      hget (len - 1) (by omega), Option.getD_some]
    omega

/-- What the bounds recorded for the float columns of the rows satisfy. -/
def BoundsSatisfy (Q : F64 → Prop) (schema : Schema) (slots : Slots) (rows : List Row) : Prop :=
  ∀ k f, schema.fields[k]? = some f → f.dataType = .float64 →
    ∀ s, float64Stats (slots k) (rows.map (Row.cell · k)) = some s → ∀ y ∈ ColumnStats.floats s, Q y

/-- The row files of a compaction. -/
structure RowsCompacted (P : Platform) (schema : Schema) (attempt : ℕ) (rows : List Row)
    (files : List (DataFileEntry × RecordBatch)) : Prop where
  fileValid : ∀ f ∈ files, FileValid P schema f
  names : files.map (fun f => f.1.name) =
    (List.range files.length).map (ObjectName.rowFile attempt)
  runs : MaximalRuns storedRowId rows (files.map fun f => f.2.rows)
  fileStats : ∀ f ∈ files, FileStats schema f.1.stats f.2.rows
  metadata : ∀ f ∈ files, f.2.schema.metadata = []

/-- The recorded bounds are those of the given slots. -/
def RunBounds (schema : Schema) (inputs : ℕ → FileInput)
    (files : List (DataFileEntry × RecordBatch)) : Prop :=
  ∀ i f, files[i]? = some f → ∀ Q, (∀ y ∈ Stats.floats f.1.stats, Q y) ↔
    BoundsSatisfy Q schema (inputs i).slots f.2.rows

theorem fileValid_run (h : StoresFields schema stored.schema.fields) {g : List Row}
    (hslice : (stored.rows.drop p.1.1).take p.1.2 = g) (hlen : g.length = p.1.2) (hne : g ≠ [])
    (hids : g.map storedRowId = List.range' first g.length) :
    FileValid P schema (runEntry P attempt logical stored (stored.rows.map storedRowId) inputs p,
      stored.slice p.1.1 p.1.2) := by
  have hpos : p.1.2 ≠ 0 := by
    rw [← hlen]
    exact Nat.pos_iff_ne_zero.mp (List.length_pos_of_ne_nil hne)
  rw [hlen] at hids
  refine ⟨rfl, rfl, h, ?_, first, ?_, ?_⟩
  · rw [RecordBatch.slice_rows, hslice]
    exact hlen
  · have hends := getD_of_slice (stored.rows.map storedRowId) p.1.1 hpos
      (by rw [← List.map_drop, ← List.map_take, hslice, hids])
    simp only [runEntry, rowIdRangeOf, hpos, if_false, hends.1, hends.2]
  · rw [RecordBatch.slice_rows, hslice, hids]
    rfl

theorem column_run (hrows : logical.rows = stored.rows.map (logicalRow schema)) (start len : ℕ)
    {k : ℕ} (hk : k < schema.fields.length) :
    (stored.slice start len).rows.map (Row.cell · k) = (logical.slice start len).column k := by
  rw [RecordBatch.column, RecordBatch.slice_rows, RecordBatch.slice_rows, hrows, ← List.map_drop,
    ← List.map_take, List.map_map]
  exact List.map_congr_left fun r _ => (cell_logicalRow hk r).symm

theorem fileStats_run (hw : WellNamed schema) (hschema : logical.schema = schema)
    (hrows : logical.rows = stored.rows.map (logicalRow schema)) (slots : Slots) (start len : ℕ) :
    FileStats schema (computeStats slots (logical.slice start len))
      (stored.slice start len).rows := by
  subst hschema
  exact fileStats_of_columns hw (fun k f hk => ⟨f, fullFields_getElem_logical hk, rfl,
    storedTypeMatches_iff.mpr (.inl rfl)⟩) fun k hk => column_run hrows start len hk

theorem bounds_run (hw : WellNamed schema) (hschema : logical.schema = schema)
    (hrows : logical.rows = stored.rows.map (logicalRow schema)) (slots : Slots) (start len : ℕ)
    (Q : F64 → Prop) :
    (∀ y ∈ Stats.floats (computeStats slots (logical.slice start len)), Q y) ↔
      BoundsSatisfy Q schema slots (stored.slice start len).rows := by
  subst hschema
  rw [forall_floats_computeStats (by rw [RecordBatch.slice_schema]; exact hw.nodup),
    RecordBatch.slice_schema]
  refine forall₃_congr fun k f hk => ?_
  rw [column_run hrows start len (List.getElem?_eq_some_iff.mp hk).1]

theorem rowsCompacted_of_runs (hw : WellNamed schema) (hschema : logical.schema = schema)
    (hrows : logical.rows = stored.rows.map (logicalRow schema))
    (h : StoresFields schema stored.schema.fields) (hmeta : stored.schema.metadata = [])
    (hn : (stored.rows.map storedRowId).Nodup) :
    RowsCompacted P schema attempt stored.rows
      ((runsOf (stored.rows.map storedRowId)).zipIdx.map fun p =>
        (runEntry P attempt logical stored (stored.rows.map storedRowId) inputs p,
          stored.slice p.1.1 p.1.2)) := by
  set runs := runsOf (stored.rows.map storedRowId) with hruns
  obtain ⟨groups, hslices, hmax⟩ := runsOf_spec
    (fun r hr => (cell_rowId (h.fits_iff.mp (stored.fits r hr))).2) hn
  rw [← hruns] at hslices
  have hgroups : runs.map (fun run => (stored.rows.drop run.1).take run.2) = groups := by
    rw [← List.forall₂_eq_eq_eq, List.forall₂_map_left_iff]
    exact hslices.imp fun _ _ hs => hs.1
  have hgroup : ∀ p ∈ runs.zipIdx, ∃ g ∈ groups,
      (stored.rows.drop p.1.1).take p.1.2 = g ∧ g.length = p.1.2 := by
    intro p hp
    obtain ⟨g, hg, hs⟩ := exists_left_of_forall₂ hslices.flip (List.fst_mem_of_mem_zipIdx hp)
    exact ⟨g, hg, hs⟩
  constructor
  case fileValid =>
    rw [List.forall_mem_map]
    intro p hp
    obtain ⟨g, hg, hslice, hlen⟩ := hgroup p hp
    obtain ⟨hne, first, hids⟩ := hmax.consecutive g hg
    exact fileValid_run h hslice hlen hne hids
  case names =>
    rw [List.map_map, List.length_map, List.length_zipIdx, List.range_eq_range',
      ← List.zipIdx_map_snd, List.map_map]
    rfl
  case runs =>
    have hrowsOf : ((runs.zipIdx.map fun p =>
        (runEntry P attempt logical stored (stored.rows.map storedRowId) inputs p,
          stored.slice p.1.1 p.1.2)).map fun f => f.2.rows) = groups := by
      rw [← hgroups, List.map_map]
      conv_rhs => rw [← List.zipIdx_map_fst 0 runs, List.map_map]
      rfl
    rw [hrowsOf]
    exact hmax
  case fileStats =>
    rw [List.forall_mem_map]
    exact fun p _ => fileStats_run hw hschema hrows _ _ _
  case metadata =>
    rw [List.forall_mem_map]
    exact fun p _ => hmeta

theorem runBounds_of_runs (hw : WellNamed schema) (hschema : logical.schema = schema)
    (hrows : logical.rows = stored.rows.map (logicalRow schema)) (runs : List (ℕ × ℕ)) :
    RunBounds schema inputs (runs.zipIdx.map fun p =>
      (runEntry P attempt logical stored rowIds inputs p, stored.slice p.1.1 p.1.2)) := by
  intro i f hf Q
  simp only [List.getElem?_map, List.getElem?_zipIdx, Option.map_map, Option.map_eq_some_iff,
    Function.comp_apply, Nat.zero_add] at hf
  obtain ⟨run, -, rfl⟩ := hf
  exact bounds_run hw hschema hrows _ _ _ Q

theorem within_writeRun (P : Platform) (attempt : ℕ) (logical stored : RecordBatch)
    (rowIds : List ℕ) (inputs : ℕ → FileInput) (p : (ℕ × ℕ) × ℕ) :
    Effect.Within (WritesOnly (· = .rowFile attempt p.2))
      (writeRun P attempt logical stored rowIds inputs p) :=
  within_bind (within_putObject _ _ _) fun _ => within_pure _

theorem writeRun_eq_ok {entry : DataFileEntry}
    (h : writeRun P attempt logical stored rowIds inputs p d = (.ok entry, d')) :
    entry = runEntry P attempt logical stored rowIds inputs p ∧
      d'.store.get (.data (.rowFile attempt p.2)) = some (.rows (stored.slice p.1.1 p.1.2)) := by
  simp only [writeRun, Effect.bind_eq_ok, Effect.pure_apply, Prod.mk.injEq,
    Except.ok.injEq] at h
  obtain ⟨_, d₁, hput, rfl, rfl⟩ := h
  exact ⟨rfl, putObject_eq_ok hput⟩

theorem writeRuns_spec {runs : List (ℕ × ℕ)} {entries : List DataFileEntry}
    (h : Effect.forEach (writeRun P attempt logical stored rowIds inputs) runs.zipIdx d =
      (.ok entries, d')) :
    entries = runs.zipIdx.map (runEntry P attempt logical stored rowIds inputs) ∧
      ∀ p ∈ runs.zipIdx, d'.store.get (.data (.rowFile attempt p.2)) =
        some (.rows (stored.slice p.1.1 p.1.2)) := by
  have hall := Effect.forEach_spec (I := fun _ => True)
    (Q := fun p entry (d : Dataset) => entry = runEntry P attempt logical stored rowIds inputs p ∧
      d.store.get (.data (.rowFile attempt p.2)) = some (.rows (stored.slice p.1.1 p.1.2)))
    (fun _ _ _ _ => trivial) (fun p _ d entry d' _ hp => writeRun_eq_ok hp)
    ((zipIdx_pairwise runs).imp fun hne entry d hq => ⟨hq.1, by
      rw [(within_writeRun P attempt logical stored rowIds inputs _ d).data_eq
        fun heq => hne (ObjectName.rowFile.inj heq).2]
      exact hq.2⟩) trivial h
  constructor
  · rw [← List.forall₂_eq_eq_eq, List.forall₂_map_right_iff]
    exact hall.flip.imp fun _ _ hq => hq.1
  · intro p hp
    obtain ⟨entry, _, hq⟩ := exists_left_of_forall₂ hall.flip hp
    exact hq.2

theorem within_rewriteRows (P : Platform) (source : Snapshot) (attempt : ℕ)
    (inputs : ℕ → FileInput) (physical : List RecordBatch) :
    Effect.Within (WritesOnly fun n => ∃ k, n = .rowFile attempt k)
      (rewriteRows P source attempt inputs physical) := by
  unfold rewriteRows
  split
  · exact within_pure _
  · refine within_bind (within_lift _) fun _ => within_bind (within_lift _) fun _ =>
      within_bind ?_ fun _ => within_bind (within_lift _) fun _ => within_pure _
    refine Effect.Within.forEach (WritesOnly.refl _) (fun _ _ _ => WritesOnly.trans)
      fun p _ d => ?_
    exact (within_writeRun P attempt _ _ _ inputs p d).mono fun n hn => ⟨p.2, hn⟩

theorem rewriteRows_spec {source : Snapshot} {physical : List RecordBatch}
    (hw : WellNamed source.schema)
    (hbs : ∀ b ∈ physical, StoresFields source.schema b.schema.fields)
    (hn : ((physical.flatMap RecordBatch.rows).map storedRowId).Nodup)
    (hfin : VectorsFinite source.schema (physical.flatMap RecordBatch.rows))
    {written : WrittenFiles}
    (h : rewriteRows P source attempt inputs physical d = (.ok written, d')) :
    ∃ files, files.map Prod.fst = written.files ∧
      (∀ f ∈ files, d'.store.get (.data f.1.name) = some (.rows f.2)) ∧
      RowsCompacted P source.schema attempt (physical.flatMap RecordBatch.rows) files ∧
      RunBounds source.schema inputs files ∧
      written.inserts =
        (physical.flatMap RecordBatch.rows).filterMap (vectorOf source.schema) ∧
      (written.inserts ≠ [] →
        written.zoneMap = zoneMapOf (source.manifest.dataFiles.map DataFileEntry.stats)) := by
  unfold rewriteRows at h
  split at h
  · rename_i hnil
    cases h
    subst hnil
    exact ⟨[], rfl, by simp, ⟨by simp, rfl, .nil _, by simp, by simp⟩, fun _ _ hf => (by cases hf),
      rfl, by simp⟩
  · simp only [Effect.bind_eq_ok, Effect.lift_apply, Effect.pure_apply, Prod.mk.injEq,
      Except.ok.injEq] at h
    obtain ⟨⟨logical, stored⟩, _, ⟨hbatches, rfl⟩, cells, _, ⟨hcells, rfl⟩, entries, d₁, hruns,
      inserts, _, ⟨hinserts, rfl⟩, rfl, rfl⟩ := h
    obtain ⟨logical', hschema, hrows, hfail, hok⟩ := compactedBatches_spec (P := P) hw hbs
    cases henc : encodeUserColumns P.kernels logical' with
    | error e =>
      rw [hfail e henc] at hbatches
      cases hbatches
    | ok encoded =>
      obtain ⟨stored', hstored', hsschema, hsrows, hstores⟩ := hok encoded henc
      rw [hstored'] at hbatches
      obtain ⟨rfl, rfl⟩ := Prod.mk.inj (Except.ok.inj hbatches)
      rw [typedColumn_rowId hw hstores] at hcells
      obtain rfl := Except.ok.inj hcells
      have hids : (stored'.rows.map fun r => Cell.uint64 (storedRowId r)).map Cell.toRowId =
          stored'.rows.map storedRowId := by
        rw [List.map_map]
        rfl
      rw [hids] at hruns
      rw [← hsrows] at hn hfin hrows ⊢
      obtain ⟨rfl, hput⟩ := writeRuns_spec hruns
      refine ⟨_, ?_, ?_, rowsCompacted_of_runs hw hschema hrows hstores (by rw [hsschema]) hn,
        runBounds_of_runs hw hschema hrows _, ?_, fun _ => rfl⟩
      · rw [List.map_map]
        rfl
      · rw [List.forall_mem_map]
        exact hput
      · rw [buildVectorInsertsWithPhysicalRowIds_of_stored hw hstores hfin] at hinserts
        cases hindex : vectorIndex stored'.schema with
        | error e =>
          rw [hindex] at hinserts
          cases hinserts
        | ok index =>
          rw [hindex] at hinserts
          exact (Except.ok.inj hinserts).symm

end StrataDB.Txn
