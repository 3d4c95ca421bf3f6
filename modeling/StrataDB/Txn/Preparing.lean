import Mathlib.Data.List.ReduceOption
import StrataDB.Lib.List
import StrataDB.Txn.Frame
import StrataDB.Txn.Recovery

/-! What the preparation of a commit writes: each staged batch becomes a valid
row file whose rows are the staged ones with consecutive ids and the commit's
timestamp. -/

namespace StrataDB.Txn

open Lib Arrow Index Storage

/-! ### Encoding -/

variable {K : Kernels} {batch encoded physical : RecordBatch} {schema : Schema} {base k attempt : ℕ}
  {P : Platform} {d d' : Dataset}

theorem encodeColumn_spec {field field' : Field} {cells : List Cell} {convert : Cell → Cell}
    (h : encodeColumn K field cells = .ok (field', convert)) :
    convert = id ∧ storedFieldMatches field' field = true := by
  unfold encodeColumn at h
  simp only [bind_eq_ok] at h
  obtain ⟨pack, _, h⟩ := h
  split at h
  · simp only [bind_eq_ok, orElse_eq_ok, pure_eq_ok, Prod.mk.injEq] at h
    obtain ⟨f, hf, rfl, rfl⟩ := h
    exact ⟨K.pack_eq _ _ _ hf, storedFieldMatches_iff.mpr ⟨rfl, rfl, rfl,
      storedTypeMatches_iff.mpr (.inr ⟨_, rfl⟩)⟩⟩
  · simp only [pure_eq_ok, Prod.mk.injEq] at h
    obtain ⟨rfl, rfl⟩ := h
    exact ⟨rfl, storedFieldMatches_iff.mpr ⟨rfl, rfl, rfl, storedTypeMatches_iff.mpr (.inl rfl)⟩⟩

/-- Encoding keeps the rows and the metadata; each field is kept or packed. -/
theorem encodeBatch_spec (h : encodeBatch K batch = .ok encoded) :
    encoded.rows = batch.rows ∧ encoded.schema.metadata = batch.schema.metadata ∧
      List.Forall₂ (fun s owned => storedFieldMatches s owned = true) encoded.schema.fields
        batch.schema.fields := by
  unfold encodeBatch at h
  simp only [bind_eq_ok, mapM_eq_ok, RecordBatch.tryNew_eq_ok] at h
  obtain ⟨columns, hcols, -, hschema, hrows⟩ := h
  have hspec : List.Forall₂ (fun (p : Field × ℕ) c => c.2 = id ∧
      storedFieldMatches c.1 p.1 = true) batch.schema.fields.zipIdx columns :=
    hcols.imp fun p c hc => encodeColumn_spec hc
  have hlen : columns.length = batch.schema.fields.length := by
    rw [← hspec.length_eq, List.length_zipIdx]
  refine ⟨?_, by rw [hschema], ?_⟩
  · rw [hrows]
    conv_rhs => rw [← List.map_id batch.rows]
    refine List.map_congr_left fun r hr => ?_
    refine zipWith_convert_id (fun f hf => ?_) ?_
    · obtain ⟨c, hc, rfl⟩ := List.mem_map.mp hf
      obtain ⟨p, _, hp⟩ := exists_left_of_forall₂ hspec hc
      exact hp.1
    · rw [List.length_map, hlen, fitsFields_length (batch.fits r hr)]
  · rw [hschema, List.forall₂_map_left_iff]
    have hfields : batch.schema.fields = batch.schema.fields.zipIdx.map Prod.fst := by
      rw [List.zipIdx_map_fst]
    rw [hfields, List.forall₂_map_right_iff]
    exact hspec.flip.imp fun c p hp => hp.2

theorem encodeUserColumns_spec (h : encodeUserColumns K batch = .ok encoded) :
    encoded.rows = batch.rows ∧ encoded.schema.metadata = batch.schema.metadata ∧
      List.Forall₂ (fun s owned => storedFieldMatches s owned = true) encoded.schema.fields
        batch.schema.fields := by
  unfold encodeUserColumns at h
  split at h
  · rename_i hnil
    obtain rfl := Except.ok.inj h
    refine ⟨rfl, rfl, ?_⟩
    rw [hnil]
    exact .nil
  · exact encodeBatch_spec (lift_eq_ok.mp h)

theorem storesFields_append_hidden {encoded : List Field} (hw : WellNamed schema)
    (h : List.Forall₂ (fun s owned => storedFieldMatches s owned = true) encoded schema.fields) :
    StoresFields schema (encoded ++ [rowIdField, timestampField]) := by
  refine List.rel_append ?_ ?_
  · rw [List.forall₂_iff_zip] at h ⊢
    refine ⟨h.1, fun hmem => ⟨h.2 hmem, fun hhidden => ?_⟩⟩
    exact absurd hhidden (hw.not_hidden _ (List.of_mem_zip hmem).2)
  · exact .cons ⟨by decide, fun _ => rfl⟩ (.cons ⟨by decide, fun _ => rfl⟩ .nil)

/-! ### Hidden columns -/

/-- The staged rows with consecutive ids from `base` and one timestamp. -/
def stagedRows (rows : List Row) (base : ℕ) (ts : ℤ) : List Row :=
  (rows.zipIdx base).map fun p => p.1 ++ [.uint64 p.2, .int64 ts]

theorem stagedRows_append (rows rows' : List Row) (base : ℕ) (ts : ℤ) :
    stagedRows (rows ++ rows') base ts =
      stagedRows rows base ts ++ stagedRows rows' (base + rows.length) ts := by
  rw [stagedRows, List.zipIdx_append, List.map_append]
  rfl

@[simp] theorem length_stagedRows (rows : List Row) (base : ℕ) (ts : ℤ) :
    (stagedRows rows base ts).length = rows.length := by
  simp [stagedRows]

variable (r : Row)

theorem storedRowId_append (id : ℕ) (c : Cell) : storedRowId (r ++ [.uint64 id, c]) = id := by
  simp [storedRowId, Row.cell, Cell.toRowId, List.getD_eq_getElem?_getD]

theorem stagedRows_rowIds (rows : List Row) (base : ℕ) (ts : ℤ) :
    (stagedRows rows base ts).map storedRowId = List.range' base rows.length := by
  rw [stagedRows, List.map_map]
  have hcomp : (storedRowId ∘ fun p : Row × ℕ => p.1 ++ [.uint64 p.2, .int64 ts]) = Prod.snd := by
    funext p
    exact storedRowId_append p.1 p.2 _
  rw [hcomp, List.zipIdx_map_snd]

theorem mem_stagedRows {rows : List Row} {ts : ℤ} {r : Row} (h : r ∈ stagedRows rows base ts) :
    ∃ r₀ ∈ rows, ∃ id, r = r₀ ++ [.uint64 id, .int64 ts] := by
  obtain ⟨p, hp, rfl⟩ := List.mem_map.mp h
  exact ⟨p.1, List.fst_mem_of_mem_zipIdx hp, p.2, rfl⟩

theorem appendHidden_rows (rows : List Row) (base : ℕ) (ts : ℤ) :
    List.zipWith (fun r c => r ++ [c])
      (List.zipWith (fun r c => r ++ [c]) rows
        ((List.range rows.length).map fun i => Cell.uint64 (base + i)))
      (List.replicate rows.length (.int64 ts)) = stagedRows rows base ts := by
  apply List.ext_getElem
  · simp
  · intro i h₁ h₂
    simp [stagedRows]

/-- The stored form of a batch: its encoded columns, then the hidden ones. -/
theorem physicalBatch_eq_ok {ts : ℤ} (h : physicalBatch P batch base ts = .ok physical) :
    physical.rows = stagedRows batch.rows base ts ∧
      ∃ encoded, encodeUserColumns P.kernels batch = .ok encoded ∧ physical.schema =
        ⟨encoded.schema.fields ++ [rowIdField, timestampField], encoded.schema.metadata⟩ := by
  unfold physicalBatch at h
  simp only [bind_eq_ok, appendRowIdColumn, appendTimestampColumn, RecordBatch.appendColumn,
    lift_eq_ok, RecordBatch.tryNew_eq_ok] at h
  obtain ⟨encoded, henc, withRowId, ⟨-, hschema₁, hrows₁⟩, -, hschema₂, hrows₂⟩ := h
  refine ⟨?_, encoded, henc, ?_⟩
  · rw [hrows₂, hrows₁, (encodeUserColumns_spec henc).1]
    exact appendHidden_rows batch.rows base ts
  · rw [hschema₂, hschema₁, List.append_assoc]
    rfl

theorem physicalBatch_spec {ts : ℤ} (hw : WellNamed batch.schema)
    (h : physicalBatch P batch base ts = .ok physical) :
    physical.rows = stagedRows batch.rows base ts ∧
      physical.schema.metadata = batch.schema.metadata ∧
      StoresFields batch.schema physical.schema.fields := by
  obtain ⟨hrows, encoded, henc, hschema⟩ := physicalBatch_eq_ok h
  obtain ⟨_, hmeta, hfields⟩ := encodeUserColumns_spec henc
  rw [hschema]
  exact ⟨hrows, hmeta, storesFields_append_hidden hw hfields⟩

/-! ### Vectors -/

theorem vectorIndex_eq_ok {index : Option ℕ} (h : vectorIndex schema = .ok index) :
    schema.indexOf vectorColumn = index := by
  unfold vectorIndex at h
  split at h
  · rename_i hnone
    rw [hnone, Except.ok.inj h]
  · rename_i k hk
    split at h <;> cases h
    exact hk

theorem vectorInsert_eq_ok {rowId : ℕ} {c : Cell} {v : Option VectorInsert}
    (h : vectorInsert rowId c = .ok v) :
    v = (Cell.toVector? c).map (fun xs => ⟨rowId, xs⟩) ∧
      ∀ xs, c = .vector xs → xs.all Binary.isFinite = true := by
  unfold vectorInsert at h
  split at h
  · split at h
    · rename_i xs hfin
      refine ⟨(Except.ok.inj h).symm, fun ys hys => ?_⟩
      cases hys
      exact hfin
    · cases h
  · rename_i hne
    refine ⟨?_, fun xs hxs => absurd hxs (hne xs)⟩
    cases c <;> first | exact (Except.ok.inj h).symm | exact absurd rfl (hne _)

/-- The hidden cells are no vectors. -/
theorem toVector?_append_hidden (k id : ℕ) (ts : ℤ) :
    Cell.toVector? (Row.cell (r ++ [.uint64 id, .int64 ts]) k) =
      Cell.toVector? (Row.cell r k) := by
  by_cases hk : k < r.length
  · rw [Row.cell_append_left hk]
  · rw [Row.cell, Row.cell, List.getD_eq_getElem?_getD, List.getD_eq_getElem?_getD,
      List.getElem?_append_right (by omega), List.getElem?_eq_none (l := r) (by omega)]
    rcases k - r.length with - | - | i <;> rfl

theorem vectorOf_staged (hk : schema.indexOf vectorColumn = some k) (r : Row) (id : ℕ) (ts : ℤ) :
    vectorOf schema (r ++ [.uint64 id, .int64 ts]) =
      (Cell.toVector? (Row.cell r k)).map fun xs => ⟨id, xs⟩ := by
  rw [vectorOf, hk, Option.bind_some, storedRowId_append, toVector?_append_hidden]

/-- A batch's vectors are those of its stored rows, and all of them are finite. -/
theorem buildVectorInserts_spec {inserts : List VectorInsert}
    (h : buildVectorInserts batch base = .ok inserts) (ts : ℤ) :
    inserts = (stagedRows batch.rows base ts).filterMap (vectorOf batch.schema) ∧
      VectorsFinite batch.schema batch.rows := by
  unfold buildVectorInserts at h
  simp only [bind_eq_ok] at h
  obtain ⟨index, hindex, h⟩ := h
  have hidx := vectorIndex_eq_ok hindex
  split at h
  · obtain rfl := pure_eq_ok.mp h
    refine ⟨(List.filterMap_eq_nil_iff.mpr fun r _ => by rw [vectorOf, hidx]; rfl).symm,
      fun k hk => ?_⟩
    rw [hidx] at hk
    cases hk
  · rename_i index
    simp only [bind_eq_ok, pure_eq_ok, mapM_eq_ok, checkedAdd_eq_ok] at h
    obtain ⟨found, hfound, rfl⟩ := h
    refine ⟨?_, fun k hk r hr xs hxs => ?_⟩
    · have hmap : found = (batch.rows.zipIdx base).map fun p =>
          vectorOf batch.schema (p.1 ++ [.uint64 p.2, .int64 ts]) := by
        rw [List.zipIdx_eq_map_add, List.map_map, ← List.map_id found]
        refine map_eq_of_forall₂ (hfound.imp fun p v hpair => ?_)
        obtain ⟨id, ⟨hid, -⟩, hins⟩ := hpair
        rw [Function.comp_apply, vectorOf_staged hidx, (vectorInsert_eq_ok hins).1, hid]
        rfl
      rw [hmap, stagedRows, List.filterMap_map, List.reduceOption, List.filterMap_map]
      rfl
    · rw [hidx] at hk
      cases hk
      obtain ⟨i, hi, rfl⟩ := List.mem_iff_getElem.mp hr
      have hp : (batch.rows[i], i) ∈ batch.rows.zipIdx :=
        List.mem_zipIdx_iff_getElem?.mpr (List.getElem?_eq_getElem hi)
      obtain ⟨v, _, id, _, hins⟩ := exists_left_of_forall₂ hfound.flip hp
      exact (vectorInsert_eq_ok hins).2 xs hxs

theorem vectorsFinite_staged {rows : List Row} {ts : ℤ}
    (hlen : ∀ r ∈ rows, r.length = schema.fields.length) (h : VectorsFinite schema rows) :
    VectorsFinite schema (stagedRows rows base ts) := by
  intro k hk r hr xs hxs
  obtain ⟨r₀, hr₀, id, rfl⟩ := mem_stagedRows hr
  have hlt : k < r₀.length := by
    rw [hlen r₀ hr₀]
    obtain ⟨hlt, _⟩ := List.findIdx?_eq_some_iff_getElem.mp hk
    exact hlt
  refine h k hk r₀ hr₀ xs ?_
  rwa [Row.cell_append_left hlt] at hxs

/-! ### Statistics -/

theorem fullFields_inj (hw : WellNamed schema) {k' : ℕ} {f f' : Field}
    (h : (fullFields schema)[k]? = some f) (h' : (fullFields schema)[k']? = some f')
    (hname : f.name = f'.name) : k = k' := by
  have hlt : k < ((fullFields schema).map Field.name).length := by
    rw [List.length_map]
    exact (List.getElem?_eq_some_iff.mp h).1
  refine (List.getElem?_inj hlt hw.full_nodup).mp ?_
  rw [List.getElem?_map, List.getElem?_map, h, h', Option.map_some, Option.map_some, hname]

/-- The statistics of a batch, for stored rows that have its columns at the same
positions. -/
theorem fileStats_of_columns (hw : WellNamed schema) {slots : Slots} {rows : List Row}
    (hfields : ∀ (k : ℕ) (f : Field), batch.schema.fields[k]? = some f →
      ∃ f', (fullFields schema)[k]? = some f' ∧ f.name = f'.name ∧
        storedTypeMatchesOwnedSchema f.dataType f'.dataType = true)
    (hcells : ∀ k < batch.schema.fields.length, rows.map (Row.cell · k) = batch.column k) :
    FileStats schema (computeStats slots batch) rows := by
  have hcolumn : ∀ {name entry}, (computeStats slots batch).lookup name = some entry →
      ∀ {k f}, (fullFields schema)[k]? = some f → f.name = name →
      ∃ f₀, batch.schema.fields[k]? = some f₀ ∧
        storedTypeMatchesOwnedSchema f₀.dataType f.dataType = true ∧
        columnStats (slots k) f₀.dataType (batch.column k) = some entry := by
    intro name entry hlookup k f hk hname
    obtain ⟨k', f₀, hk', hname', hstats⟩ := computeStats_lookup hlookup
    obtain ⟨f', hf', hnames, htype⟩ := hfields k' f₀ hk'
    obtain rfl : k = k' := fullFields_inj hw hk hf' (by rw [hname, ← hnames, hname'])
    rw [hk] at hf'
    cases hf'
    exact ⟨f₀, hk', htype, hstats⟩
  constructor
  case cover =>
    intro name entry hlookup hfin k f hk hname r hr x hx
    obtain ⟨f₀, hk', -, hstats⟩ := hcolumn hlookup hk hname
    have hmem : Row.cell r k ∈ batch.column k := by
      rw [← hcells k (List.getElem?_eq_some_iff.mp hk').1]
      exact List.mem_map_of_mem hr
    obtain ⟨r₀, hr₀, hcell⟩ := List.mem_map.mp hmem
    refine columnStats_covers hstats hfin hmem ?_ hx
    rw [← hcell]
    exact Field.accepts_cases (accepts_cell (batch.fits r₀ hr₀) hk')
  case floats =>
    refine ⟨slots, fun k f hk hf s hs => ?_⟩
    obtain ⟨f₀, hk', htype, hstats⟩ := hcolumn hs hk rfl
    rw [hf, storedTypeMatches_iff] at htype
    rw [hcells k (List.getElem?_eq_some_iff.mp hk').1]
    -- a packed column has no statistics
    rcases htype with htype | ⟨key, htype⟩
    · rwa [htype] at hstats
    · rw [htype] at hstats
      cases hstats

theorem fileStats_committed (hw : WellNamed batch.schema) (slots : Slots) (base : ℕ) (ts : ℤ) :
    FileStats batch.schema (committedStats slots batch ts) (stagedRows batch.rows base ts) := by
  have hcolumns : FileStats batch.schema (computeStats slots batch)
      (stagedRows batch.rows base ts) := by
    refine fileStats_of_columns hw (fun k f hk => ⟨f, fullFields_getElem_logical hk, rfl,
      storedTypeMatches_iff.mpr (.inl rfl)⟩) fun k hk => ?_
    rw [RecordBatch.column, stagedRows, List.map_map]
    conv_rhs => rw [← List.zipIdx_map_fst base batch.rows, List.map_map]
    refine List.map_congr_left fun p hp => ?_
    refine Row.cell_append_left ?_ _
    rwa [fitsFields_length (batch.fits _ (List.fst_mem_of_mem_zipIdx hp))]
  constructor
  case cover =>
    intro name entry hlookup hfin k f hk hname r hr x hx
    by_cases hts : name = timestampColumn
    · subst hts
      rw [committedStats, AList.lookup_insert] at hlookup
      cases hlookup
      obtain rfl : k = batch.schema.fields.length + 1 :=
        fullFields_inj hw hk (fullFields_getElem_timestamp _) hname
      obtain ⟨r₀, hr₀, id, rfl⟩ := mem_stagedRows hr
      have hlen := fitsFields_length (batch.fits r₀ hr₀)
      have hcell : Row.cell (r₀ ++ [.uint64 id, .int64 ts]) (batch.schema.fields.length + 1) =
          .int64 ts := by
        simp [Row.cell, List.getD_eq_getElem?_getD, ← hlen]
      rw [hcell] at hx
      cases hx
      exact ⟨rfl, rfl, fun _ => by simp [Value.le], fun _ => by simp [Value.le]⟩
    · rw [committedStats, AList.lookup_insert_ne hts] at hlookup
      exact hcolumns.cover name entry hlookup hfin k f hk hname r hr x hx
  case floats =>
    obtain ⟨raw, hraw⟩ := hcolumns.floats
    refine ⟨raw, fun k f hk hf s hs => hraw k f hk hf s ?_⟩
    rwa [committedStats, AList.lookup_insert_ne] at hs
    intro hname
    -- the timestamps are integers
    obtain rfl : k = batch.schema.fields.length + 1 :=
      fullFields_inj hw hk (fullFields_getElem_timestamp _) hname
    rw [fullFields_getElem_timestamp] at hk
    cases hk
    cases hf

/-! ### The files of a preparation -/

/-- The row files written for some staged batches: `first` is the index in their
names, `base` their first row id. -/
structure FilesWritten (P : Platform) (schema : Schema) (attempt : ℕ) (ts : ℤ) (first base : ℕ)
    (pending : List RecordBatch) (files : List (DataFileEntry × RecordBatch))
    (inserts : List VectorInsert) : Prop where
  fileValid : ∀ f ∈ files, FileValid P schema f
  metadata : ∀ f ∈ files, f.2.schema.metadata = schema.metadata
  names : files.map (fun f => f.1.name) =
    (List.range' first pending.length).map (ObjectName.rowFile attempt)
  rows : files.flatMap (fun f => f.2.rows) =
    stagedRows (pending.flatMap RecordBatch.rows) base ts
  fileStats : ∀ f ∈ files, FileStats schema f.1.stats f.2.rows
  vectorsFinite : VectorsFinite schema (files.flatMap fun f => f.2.rows)
  inserts : inserts = (files.flatMap fun f => f.2.rows).filterMap (vectorOf schema)

theorem mem_filterMap_vectorOf {rows : List Row} {v : VectorInsert}
    (h : v ∈ rows.filterMap (vectorOf schema)) : ∃ r ∈ rows, storedRowId r = v.rowId := by
  obtain ⟨r, hr, hv⟩ := List.mem_filterMap.mp h
  obtain ⟨k, _, hv⟩ := Option.bind_eq_some_iff.mp hv
  obtain ⟨xs, _, rfl⟩ := Option.map_eq_some_iff.mp hv
  exact ⟨r, hr, rfl⟩

theorem within_writePendingBatch (P : Platform) (attempt : ℕ) (ts : ℤ) (input : FileInput)
    (i base : ℕ) (batch : RecordBatch) :
    Effect.Within (WritesOnly (· = .rowFile attempt i))
      (writePendingBatch P attempt ts input i base batch) :=
  within_bind (within_lift _) fun _ => within_bind (within_lift _) fun _ =>
    within_bind (within_putObject _ _ _) fun _ => within_pure _

theorem within_writeBatchesFrom (P : Platform) (attempt : ℕ) (ts : ℤ) (inputs : ℕ → FileInput)
    (i base : ℕ) (pending : List RecordBatch) :
    Effect.Within (WritesOnly fun n => ∃ k, i ≤ k ∧ n = .rowFile attempt k)
      (writeBatchesFrom P attempt ts inputs i base pending) := by
  induction pending generalizing i base with
  | nil => exact within_pure _
  | cons batch pending ih =>
    refine within_bind (fun d => ?_) fun _ => within_bind (fun d => ?_) fun _ => within_pure _
    · exact (within_writePendingBatch P attempt ts (inputs i) i base batch d).mono
        fun n hn => ⟨i, le_rfl, hn⟩
    · exact (ih (i + 1) (base + batch.numRows) d).mono
        fun n ⟨k, hk, hn⟩ => ⟨k, by omega, hn⟩

theorem writePendingBatch_spec {ts : ℤ} {input : FileInput} {i : ℕ}
    (hw : WellNamed batch.schema) {entry : DataFileEntry} {inserts : List VectorInsert}
    (h : writePendingBatch P attempt ts input i base batch d = (.ok (entry, inserts), d')) :
    ∃ physical, d'.store.get (.data entry.name) = some (.rows physical) ∧
      FilesWritten P batch.schema attempt ts i base [batch] [(entry, physical)] inserts := by
  unfold writePendingBatch at h
  simp only [Effect.bind_eq_ok, Effect.lift_apply, Effect.pure_apply, Prod.mk.injEq] at h
  obtain ⟨inserts', _, ⟨hins, rfl⟩, physical, _, ⟨hphys, rfl⟩, _, d₁, hput, hentry, rfl⟩ := h
  obtain ⟨rfl, rfl⟩ := Prod.mk.inj (Except.ok.inj hentry)
  obtain ⟨hrows, hmeta, hfields⟩ := physicalBatch_spec hw hphys
  obtain ⟨hinserts, hfinite⟩ := buildVectorInserts_spec hins ts
  have hone : [batch].flatMap RecordBatch.rows = batch.rows := by simp
  refine ⟨physical, putObject_eq_ok hput, ?_⟩
  constructor
  case fileValid =>
    simp only [List.mem_singleton, forall_eq]
    refine ⟨rfl, rfl, hfields, ?_, base, rfl, ?_⟩
    · dsimp only
      rw [hrows, length_stagedRows]
      rfl
    · dsimp only
      rw [hrows, stagedRows_rowIds]
      rfl
  case metadata => simpa using hmeta
  case names => rfl
  case rows => simpa [hone] using hrows
  case fileStats =>
    simp only [List.mem_singleton, forall_eq, hrows]
    exact fileStats_committed hw _ base ts
  case vectorsFinite =>
    simp only [List.flatMap_cons, List.flatMap_nil, List.append_nil, hrows]
    exact vectorsFinite_staged (fun r hr => fitsFields_length (batch.fits r hr)) hfinite
  case inserts => simpa [hrows] using hinserts

theorem FilesWritten.cons {P : Platform} {schema : Schema} {attempt : ℕ} {ts : ℤ}
    {first base : ℕ} {batch : RecordBatch} {pending : List RecordBatch}
    {f : DataFileEntry × RecordBatch} {files : List (DataFileEntry × RecordBatch)}
    {inserts inserts' : List VectorInsert}
    (h : FilesWritten P schema attempt ts first base [batch] [f] inserts)
    (h' : FilesWritten P schema attempt ts (first + 1) (base + batch.numRows) pending files
      inserts') :
    FilesWritten P schema attempt ts first base (batch :: pending) (f :: files)
      (inserts ++ inserts') := by
  have hsplit : (batch :: pending).flatMap RecordBatch.rows =
      batch.rows ++ pending.flatMap RecordBatch.rows := rfl
  have hone : [batch].flatMap RecordBatch.rows = batch.rows := by simp
  have hfrows : f.2.rows = stagedRows batch.rows base ts := by simpa [hone] using h.rows
  constructor
  case fileValid => exact List.forall_mem_cons.mpr ⟨h.fileValid f List.mem_cons_self, h'.fileValid⟩
  case metadata => exact List.forall_mem_cons.mpr ⟨h.metadata f List.mem_cons_self, h'.metadata⟩
  case names =>
    have hname : f.1.name = .rowFile attempt first := by simpa using h.names
    rw [List.map_cons, h'.names, hname, List.length_cons, List.range'_succ, List.map_cons]
  case rows =>
    rw [hsplit, stagedRows_append, List.flatMap_cons, h'.rows, hfrows]
    rfl
  case fileStats =>
    exact List.forall_mem_cons.mpr ⟨h.fileStats f List.mem_cons_self, h'.fileStats⟩
  case vectorsFinite =>
    intro k hk r hr
    rcases List.mem_append.mp hr with hr | hr
    · exact h.vectorsFinite k hk r (by simpa using hr)
    · exact h'.vectorsFinite k hk r hr
  case inserts =>
    have hfirst : inserts = f.2.rows.filterMap (vectorOf schema) := by simpa using h.inserts
    rw [List.flatMap_cons, List.filterMap_append, ← h'.inserts, ← hfirst]

theorem FilesWritten.nil {ts : ℤ} {first : ℕ} :
    FilesWritten P schema attempt ts first base [] [] [] :=
  ⟨by simp, by simp, rfl, rfl, by simp, fun _ _ _ hr => by simp at hr, rfl⟩

theorem writeBatchesFrom_spec (hw : WellNamed schema) {ts : ℤ} {inputs : ℕ → FileInput} {i : ℕ}
    {pending : List RecordBatch} (hschema : ∀ b ∈ pending, b.schema = schema)
    {written : List (DataFileEntry × List VectorInsert)} {last : ℕ}
    (h : writeBatchesFrom P attempt ts inputs i base pending d = (.ok (written, last), d')) :
    ∃ files, files.map Prod.fst = written.map Prod.fst ∧
      (∀ f ∈ files, d'.store.get (.data f.1.name) = some (.rows f.2)) ∧
      last = base + (pending.flatMap RecordBatch.rows).length ∧
      FilesWritten P schema attempt ts i base pending files (written.flatMap Prod.snd) := by
  induction pending generalizing i base d written last with
  | nil =>
    simp only [writeBatchesFrom, Effect.pure_apply, Prod.mk.injEq, Except.ok.injEq] at h
    obtain ⟨⟨rfl, rfl⟩, rfl⟩ := h
    exact ⟨[], rfl, by simp, rfl, .nil⟩
  | cons batch pending ih =>
    rw [List.forall_mem_cons] at hschema
    obtain ⟨rfl, hrest⟩ := hschema
    simp only [writeBatchesFrom, Effect.bind_eq_ok, Effect.pure_apply, Prod.mk.injEq] at h
    obtain ⟨⟨entry, inserts⟩, d₁, hfirst, ⟨others, last'⟩, d₂, hothers, heq, rfl⟩ := h
    obtain ⟨rfl, rfl⟩ := Prod.mk.inj (Except.ok.inj heq)
    obtain ⟨physical, hstored, hone⟩ := writePendingBatch_spec hw hfirst
    obtain ⟨files, hfst, hall, hlast, hmany⟩ := ih hrest hothers
    have hname : entry.name = .rowFile attempt i := by simpa using hone.names
    refine ⟨(entry, physical) :: files, by simp [hfst], ?_, ?_, ?_⟩
    · refine List.forall_mem_cons.mpr ⟨?_, hall⟩
      -- The later files have larger indices in their names.
      have hkept := ((within_writeBatchesFrom P attempt ts inputs (i + 1) (base + batch.numRows)
        pending).of_eq hothers).data_eq (n := entry.name) (by
          rintro ⟨k, hk, hn⟩
          rw [hname] at hn
          cases hn
          omega)
      rw [hkept]
      exact hstored
    · rw [hlast, List.flatMap_cons, List.length_append]
      unfold RecordBatch.numRows
      omega
    · exact hone.cons hmany

/-! ### The segment of a preparation -/

/-- A written segment indexes exactly the given vectors. -/
structure SegmentWritten (attempt : ℕ) (inserts : List VectorInsert) (zoneMap : Stats)
    (published : PublishedSegment) : Prop where
  valid : SegmentValid (published.entry, published.reader)
  name : published.entry.name = .segment attempt
  zoneMap : published.entry.zoneMap = zoneMap
  rowIds : published.reader.rowIds = inserts.map VectorInsert.rowId
  vectors : published.reader.vectors = inserts.map VectorInsert.vector
  ascending : published.reader.rowIds.Pairwise (· < ·)

theorem within_buildAndWriteSegment (P : Platform) (attempt : ℕ) (inserts : List VectorInsert)
    (zoneMap : Stats) (fault : Fault) :
    Effect.Within (WritesOnly (· = .segment attempt))
      (buildAndWriteSegment P attempt inserts zoneMap fault) := by
  unfold buildAndWriteSegment
  dsimp only
  split
  · exact within_pure _
  · exact within_bind (within_lift _) fun _ => within_bind (within_lift _) fun _ =>
      within_bind (within_putObject _ _ _) fun _ => within_pure _

theorem buildAndWriteSegment_spec {inserts : List VectorInsert} {zoneMap : Stats} {fault : Fault}
    {segment : Option PublishedSegment}
    (h : buildAndWriteSegment P attempt inserts zoneMap fault d = (.ok segment, d')) :
    (segment = none ↔ inserts = []) ∧ ∀ published ∈ segment,
      SegmentWritten attempt inserts zoneMap published ∧
        d'.store.get (.data published.entry.name) = some (.segment published.reader) := by
  unfold buildAndWriteSegment at h
  dsimp only at h
  split at h
  · rename_i hnil
    obtain ⟨hseg, rfl⟩ := Prod.mk.inj h
    obtain rfl := Except.ok.inj hseg
    exact ⟨by simp [hnil], by simp⟩
  · rename_i hne
    simp only [Effect.bind_eq_ok, Effect.lift_apply, Effect.pure_apply, Prod.mk.injEq,
      lift_eq_ok] at h
    obtain ⟨graph, _, ⟨_, rfl⟩, built, _, ⟨henc, rfl⟩, _, d₁, hput, hseg, rfl⟩ := h
    obtain rfl := Except.ok.inj hseg
    obtain ⟨rfl, hids, hasc, hdim, hlen, hgraph, _⟩ := encodeSegment_eq_ok.mp henc
    refine ⟨by simp [hne], fun published hpub => ?_⟩
    cases hpub
    refine ⟨⟨⟨rfl, rfl, ?_, rfl, hdim, rfl, hids, by simp, hlen, hgraph⟩, rfl, rfl, rfl, rfl,
      hasc⟩, putObject_eq_ok hput⟩
    simp [Segment.nodeCount]

end StrataDB.Txn
