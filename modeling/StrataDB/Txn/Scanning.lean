import StrataDB.Query.FloatPruning
import StrataDB.Txn.Reading
import StrataDB.Txn.Statistics

/-! Scans with a predicate. A scan under a requested schema shows the live rows
at the requested positions; a predicate may skip a file only if it selects none of
the file's live rows, which the recorded bounds guarantee as long as the numeric
comparison agrees with the kernels. -/

namespace StrataDB.Txn

open Lib Arrow Index Storage Query

variable {P : Platform} {s : Snapshot} {cat : Catalog} {store : Store}

/-- A snapshot in use is a valid version whose objects are all on the store. -/
theorem System.Inv.snapshot_valid {sys : System} (h : sys.Inv P) {b : Snapshot}
    (hb : b ∈ sys.dataset.current :: sys.held) :
    ∃ cat, b.Valid P cat ∧ cat.StoredIn sys.dataset.store := by
  obtain ⟨g, hg, rfl, hlive⟩ := h.live_mem hb
  obtain ⟨cat, hv, hstored⟩ := h.recorded.valid_of_mem hg
  exact ⟨cat, hv, (h.kept g hg hlive).storedIn hv hstored⟩

/-! ### Requested columns -/

/-- Where the fields of a requested schema stand in a stored row. -/
def positions (schema requested : Schema) : List ℕ :=
  requested.fields.map fun f => ((fullSchema schema).indexOf f.name).getD 0

/-- A stored row at the requested positions. -/
def Row.at (r : Row) (ks : List ℕ) : Row := ks.map (Row.cell r)

variable {field : Field} {requested : Schema} {u : Unit} {f : DataFileEntry × RecordBatch}
  {ks : List ℕ} {full result : RecordBatch} {p : Predicate} {c : String} {op : CmpOp} {v : Value}
  {r : Row}

theorem projectionField_mem {expected : Field} (h : s.projectionField field = .ok expected) :
    expected ∈ fullFields s.schema := by
  unfold Snapshot.projectionField at h
  split at h
  · cases h
    simp [fullFields]
  · split at h
    · cases h
      simp [fullFields]
    · rw [orElse_eq_ok] at h
      exact List.mem_append_left _ (List.mem_of_find?_eq_some h)

theorem validateProjectionSchema_eq_ok (hw : WellNamed s.schema)
    (h : s.validateProjectionSchema requested = .ok u) :
    List.Forall₂ (fun f k => (fullFields s.schema)[k]? = some f) requested.fields
      (positions s.schema requested) := by
  simp only [Snapshot.validateProjectionSchema, bind_eq_ok, ensure_eq_ok, exists_const,
    forM_eq_ok] at h
  rw [positions, List.forall₂_map_right_iff, List.forall₂_same]
  intro f hf
  obtain ⟨expected, hexp, rfl⟩ := h.2 f hf
  obtain ⟨k, hk⟩ := List.mem_iff_getElem?.mp (projectionField_mem hexp)
  have hidx : (fullSchema s.schema).indexOf f.name = some k :=
    indexOf_of_getElem hw.full_nodup hk
  rw [hidx]
  exact hk

theorem Snapshot.Valid.castBatch (h : s.Valid P cat) (hf : f ∈ cat.files)
    (hks : List.Forall₂ (fun f k => (fullFields s.schema)[k]? = some f) requested.fields ks) :
    ∃ b, castBatchToSchema P.kernels (s.liveBatch f.2) requested = .ok b ∧
      b.schema = requested ∧ b.rows = (s.liveBatch f.2).rows.map (Row.at · ks) :=
  castBatch_of_stored h.wellNamed
    (show StoresFields s.schema (s.liveBatch f.2).schema.fields from (h.fileValid f hf).fields) hks

theorem Snapshot.Valid.scan_of_valid (h : s.Valid P cat) (hs : cat.StoredIn store)
    (hval : s.validateProjectionSchema requested = .ok u) :
    s.scan P store requested = lift .arrow (RecordBatch.tryNewWithOptions requested
      ((cat.liveRows s.tombstones).map (Row.at · (positions s.schema requested)))) := by
  have hks := validateProjectionSchema_eq_ok h.wellNamed hval
  obtain ⟨bs, hbs, hforall⟩ := mapM_ok_of_exists fun f hf => h.castBatch (f := f) hf hks
  rw [Snapshot.scan, hval, ok_bind, h.readSurvivingFiles hs, hbs, ok_bind, RecordBatch.concat,
    liveRows_eq_flatMap, List.map_flatMap]
  exact congrArg (fun rows => lift .arrow (RecordBatch.tryNewWithOptions requested rows))
    (flatMap_eq_of_forall₂ (hforall.imp fun _ _ hb => hb.2))

/-- A scan that succeeds shows the live rows at the requested positions. -/
theorem Snapshot.Valid.scan_eq_ok (h : s.Valid P cat) (hs : cat.StoredIn store)
    (hscan : s.scan P store requested = .ok full) :
    List.Forall₂ (fun f k => (fullFields s.schema)[k]? = some f) requested.fields
        (positions s.schema requested) ∧ full.schema = requested ∧
      full.rows = (cat.liveRows s.tombstones).map (Row.at · (positions s.schema requested)) := by
  obtain ⟨u, hval, -⟩ := bind_eq_ok.mp hscan
  rw [h.scan_of_valid hs hval, lift_eq_ok, RecordBatch.tryNewWithOptions_eq_ok] at hscan
  exact ⟨validateProjectionSchema_eq_ok h.wellNamed hval, hscan⟩

/-! ### Predicates -/

theorem Predicate.eval_congr {leaf leaf' : CmpOp → String → Value → Option Bool}
    (h : p.All fun op c v => leaf op c v = leaf' op c v) : p.eval leaf = p.eval leaf' := by
  induction p with
  | and l r ihl ihr => rw [Predicate.eval, Predicate.eval, ihl h.1, ihr h.2]
  | or l r ihl ihr => rw [Predicate.eval, Predicate.eval, ihl h.1, ihr h.2]
  | _ => exact h

/-- A column of a request, found in its rows as in whole rows. -/
theorem column_at (hw : WellNamed s.schema)
    (hks : List.Forall₂ (fun f k => (fullFields s.schema)[k]? = some f) requested.fields ks) {i : ℕ}
    (hi : requested.indexOf c = some i) :
    ∃ k, (fullSchema s.schema).indexOf c = some k ∧
      (fullSchema s.schema).typeAt k = requested.typeAt i ∧
      ∀ r, Row.cell (Row.at r ks) i = Row.cell r k := by
  obtain ⟨f, hf, rfl, htype⟩ := indexOf_eq_some hi
  obtain ⟨hlt, rfl⟩ := List.getElem?_eq_some_iff.mp hf
  have hlt' : i < ks.length := by rwa [← hks.length_eq]
  have hk : (fullFields s.schema)[ks[i]]? = some requested.fields[i] :=
    List.Forall₂.get hks hlt hlt'
  refine ⟨ks[i], indexOf_of_getElem hw.full_nodup hk, ?_, fun r => ?_⟩
  · rw [htype, Schema.typeAt, show (fullSchema s.schema).fields = fullFields s.schema from rfl, hk]
  · simp [Row.at, Row.cell, List.getD_eq_getElem?_getD, hlt']

/-- A leaf reads the same cell of a projected row as of the stored one. -/
theorem rowLeaf_at (hw : WellNamed s.schema)
    (hks : List.Forall₂ (fun f k => (fullFields s.schema)[k]? = some f) requested.fields ks)
    (htyped : LeafTyped requested op c v) (r : Row) :
    rowLeaf requested (Row.at r ks) op c v = rowLeaf (fullSchema s.schema) r op c v := by
  obtain ⟨i, hi, -⟩ := htyped
  obtain ⟨k, hk, -, hcell⟩ := column_at hw hks hi
  rw [rowLeaf, rowLeaf, hi, hk, Option.bind_some, Option.bind_some, hcell]

/-- A scan with a predicate shows what filtering the full scan shows exactly when the
files it skips have no matching live row. -/
theorem Snapshot.Valid.scanWithPredicate_iff (h : s.Valid P cat) (hs : cat.StoredIn store)
    (hscan : s.scan P store requested = .ok full) (hfilter : filter full p = .ok result) :
    s.scanWithPredicate P store requested p = .ok result ↔
      ∀ f ∈ cat.files, shouldScanFile f.1.stats p = false →
        ∀ r ∈ (s.liveBatch f.2).rows, p.eval (rowLeaf (fullSchema s.schema) r) ≠ some true := by
  obtain ⟨hks, hschema, hrows⟩ := h.scan_eq_ok hs hscan
  obtain ⟨htyped, rfl⟩ := filter_eq_ok.mp hfilter
  rw [hschema] at htyped ⊢
  set ks := positions s.schema requested
  set keep : Row → Bool := fun r => p.eval (rowLeaf (fullSchema s.schema) r) = some true
  have hkeep : ∀ r, p.eval (rowLeaf requested (Row.at r ks)) =
      p.eval (rowLeaf (fullSchema s.schema) r) := fun r =>
    Predicate.eval_congr (htyped.imp fun op c v ht => rowLeaf_at h.wellNamed hks ht r)
  set found : DataFileEntry × RecordBatch → List Row := fun f =>
    ((s.liveBatch f.2).rows.filter keep).map (Row.at · ks)
  have hfile : ∀ f ∈ cat.files.filter (fun f => (some p).all (shouldScanFile f.1.stats)),
      ∃ b, (do
        let cast ← castBatchToSchema P.kernels (s.liveBatch f.2) requested
        lift .arrow (filter cast p)) = .ok b ∧ b.rows = found f := by
    intro f hf
    obtain ⟨b, hb, hbs, hbr⟩ := h.castBatch (List.mem_of_mem_filter hf) hks
    refine ⟨b.filter fun r => p.eval (rowLeaf b.schema r) = some true, ?_, ?_⟩
    · rw [hb, ok_bind, lift_eq_ok]
      exact filter_eq_ok.mpr ⟨hbs ▸ htyped, rfl⟩
    · rw [RecordBatch.filter_rows, hbr, hbs, List.filter_map]
      exact congrArg _ (List.filter_congr fun r _ => by simp [keep, hkeep])
  obtain ⟨bs, hbs, hall⟩ := mapM_ok_of_exists hfile
  have hwhole : (full.filter fun r => p.eval (rowLeaf requested r) = some true).rows =
      cat.files.flatMap found := by
    rw [RecordBatch.filter_rows, hrows, List.filter_map, liveRows_eq_flatMap, List.filter_flatMap,
      List.map_flatMap]
    refine List.flatMap_congr fun f _ => congrArg _ (List.filter_congr fun r _ => ?_)
    simp [keep, hkeep]
  obtain ⟨_, hval, -⟩ := bind_eq_ok.mp hscan
  rw [Snapshot.scanWithPredicate, hval, ok_bind, h.readSurvivingFiles_filter hs, hbs, ok_bind,
    lift_eq_ok, RecordBatch.concat, RecordBatch.tryNewWithOptions_eq_ok,
    and_iff_right (show (full.filter _).schema = requested from hschema), hwhole,
    flatMap_eq_of_forall₂ hall, eq_comm, flatMap_filter_eq_iff]
  simp [found, keep]

/-! ### Recorded bounds -/

theorem Snapshot.Valid.stats_finite (h : s.Valid P cat) (hf : f ∈ cat.files) :
    ∀ y ∈ Stats.floats f.1.stats, y.isFinite = true := by
  intro y hy
  have hfile : f.1 ∈ s.manifest.dataFiles := by
    rw [h.files_eq]
    exact List.mem_map_of_mem hf
  exact isFinite_of_decodes h.decodes y (Manifest.mem_floats_of_file hfile hy)

theorem Snapshot.Valid.covers (h : s.Valid P cat) (hf : f ∈ cat.files) {name : String}
    {entry : ColumnStats} (hlookup : f.1.stats.lookup name = some entry) {k : ℕ}
    (hk : (fullFields s.schema)[k]? = some field) (hname : field.name = name) (hr : r ∈ f.2.rows)
    {x : Value} (hx : Cell.value? (Row.cell r k) = some x) : entry.Covers x :=
  (h.fileStats f hf).cover name entry hlookup
    (fun y hy => h.stats_finite hf y (mem_floats_iff.mpr ⟨name, entry, hlookup, hy⟩))
    k field hk hname r hr x hx

/-- On this row the comparison of `Value` is true where the kernel's is. -/
def LeafAgrees (schema : Schema) (r : Row) (op : CmpOp) (c : String) (v : Value) : Prop :=
  ∀ i, schema.indexOf c = some i → Agrees op (Row.cell r i) v

/-- A file is skipped only if it has no matching row. -/
theorem Snapshot.Valid.skipped (h : s.Valid P cat) (hf : f ∈ cat.files)
    (hskip : shouldScanFile f.1.stats p = false) (hr : r ∈ f.2.rows)
    (hagree : p.All (LeafAgrees (fullSchema s.schema) r)) :
    p.eval (rowLeaf (fullSchema s.schema) r) ≠ some true := by
  intro heval
  have hscan : shouldScanFile f.1.stats p = true := by
    refine shouldScanFile_of_eval (hagree.imp fun op c v ha hleaf => ?_) heval
    obtain ⟨i, hi, hcell⟩ := Option.bind_eq_some_iff.mp hleaf
    obtain ⟨field, hfield, hname, -⟩ := indexOf_eq_some hi
    obtain ⟨x, hx⟩ := exists_value_of_cell hcell
    exact leafScan_of_covers (fun entry hentry => h.covers hf hentry hfield hname hr hx)
      (ha i hi hcell x hx)
  rw [hskip] at hscan
  cases hscan

theorem Snapshot.Valid.scanWithPredicate_of_agrees (h : s.Valid P cat) (hs : cat.StoredIn store)
    (hagree : ∀ r ∈ cat.liveRows s.tombstones, p.All (LeafAgrees (fullSchema s.schema) r))
    (hscan : s.scan P store requested = .ok full) (hfilter : filter full p = .ok result) :
    s.scanWithPredicate P store requested p = .ok result := by
  refine (h.scanWithPredicate_iff hs hscan hfilter).mpr fun f hf hskip r hr => ?_
  refine h.skipped hf hskip (List.mem_of_mem_filter hr) (hagree r ?_)
  rw [liveRows_eq_flatMap]
  exact List.mem_flatMap.mpr ⟨f, hf, hr⟩

/-- The requested schema types a leaf as the owned one does. -/
theorem LeafTyped.not_float
    (hks : List.Forall₂ (fun f k => (fullFields s.schema)[k]? = some f) requested.fields ks)
    (htyped : LeafTyped requested op c v) (hcol : LeafNotFloat (fullSchema s.schema) op c v) :
    literalType v ≠ .float64 := by
  refine htyped.literalType_ne fun f hf hname => hcol f ?_ hname
  obtain ⟨k, -, hk⟩ := exists_right_of_forall₂ hks hf
  exact List.mem_of_getElem? hk

/-- Statistics of integer and string columns are sound for pruning: a batch they
rule out has no matching row, and a scan with a predicate shows what filtering the
full scan shows. -/
theorem predicate_pruning_sound :
    (∀ (slots : Slots) (batch : RecordBatch) (p : Predicate) (m : List (Option Bool)),
      (batch.schema.fields.map Field.name).Nodup → p.All (LeafNotFloat batch.schema) →
      shouldScanFile (computeStats slots batch) p = false → mask batch p = .ok m →
      ∀ b ∈ m, b ≠ some true) ∧
    ∀ (P : Platform) (sys : System), (system P).Reachable sys →
      ∀ b ∈ sys.dataset.current :: sys.held, ∀ (requested : Schema) (p : Predicate)
        (full result : RecordBatch), p.All (LeafNotFloat (fullSchema b.schema)) →
      b.scan P sys.dataset.store requested = .ok full → filter full p = .ok result →
      b.scanWithPredicate P sys.dataset.store requested p = .ok result := by
  refine ⟨fun slots batch p m hn hcol => mask_of_pruned hn hcol, ?_⟩
  intro P sys hreach b hb requested p full result hcol hscan hfilter
  obtain ⟨cat, hv, hstored⟩ := (System.inv_of_reachable hreach).snapshot_valid hb
  obtain ⟨hks, hschema, -⟩ := hv.scan_eq_ok hstored hscan
  obtain ⟨htyped, -⟩ := filter_eq_ok.mp hfilter
  rw [hschema] at htyped
  refine hv.scanWithPredicate_of_agrees hstored (fun r _ => ?_) hscan hfilter
  exact (htyped.and hcol).imp fun op c v ⟨ht, hc⟩ _ _ =>
    agrees_of_not_float (LeafTyped.not_float hks ht hc)

/-- Two commits; the first file holds nothing above 25. -/
def twoFilesLabels : List Label :=
  insertLabels (idBatch [10, 20]) ++ [.begin, .insert 1 (idBatch [30, 25])] ++ commitLabels 1 2

theorem predicate_pruning_sound_twoFiles :
    ∃ s result, plainRun idSchema twoFilesLabels = some s ∧
      s.dataset.current.manifest.dataFiles.map
        (fun e => shouldScanFile e.stats (.gt "id" (.int64 25))) = [false, true] ∧
      s.dataset.current.scanWithPredicate plainPlatform s.dataset.store idSchema
        (.gt "id" (.int64 25)) = .ok result ∧ result.rows = [[.int64 30]] := by
  have hrun : (plainRun idSchema twoFilesLabels).bind (fun s =>
      (s.dataset.current.scan plainPlatform s.dataset.store idSchema).toOption.bind fun full =>
        (filter full (.gt "id" (.int64 25))).toOption.map fun result =>
          (s.dataset.current.schema, s.dataset.current.manifest.dataFiles.map
            (fun e => shouldScanFile e.stats (.gt "id" (.int64 25))), result.rows)) =
      some (idSchema, [false, true], [[.int64 30]]) := by
    decide +kernel
  obtain ⟨s, hs, hrun⟩ := Option.bind_eq_some_iff.mp hrun
  obtain ⟨full, hfull, hrun⟩ := Option.bind_eq_some_iff.mp hrun
  obtain ⟨result, hresult, hout⟩ := Option.map_eq_some_iff.mp hrun
  simp only [Prod.mk.injEq] at hout
  obtain ⟨hschema, hscanned, hrows⟩ := hout
  refine ⟨s, result, hs, hscanned, ?_, hrows⟩
  refine predicate_pruning_sound.2 _ _ (reachable_runOn hs) _ List.mem_cons_self _ _ _ _ ?_
    (toOption_eq_some.mp hfull) (toOption_eq_some.mp hresult)
  rw [hschema]
  show ∀ f ∈ fullFields idSchema, f.name = "id" → valueType f.dataType ≠ .float64
  decide

/-! ### Floats -/

/-- The slots of each listed file that its statistics were taken of. -/
theorem Snapshot.Valid.exists_slots (h : s.Valid P cat) (hs : cat.StoredIn store) :
    ∃ slots : DataFileEntry → Slots, ∀ f ∈ cat.files, ∀ k g, (fullFields s.schema)[k]? = some g →
      g.dataType = .float64 → ∀ c, f.1.stats.lookup g.name = some c →
        float64Stats (slots f.1 k) (f.2.rows.map (Row.cell · k)) = some c := by
  have hslots : ∀ e : DataFileEntry, ∃ slots : Slots, ∀ f ∈ cat.files, f.1 = e → ∀ k g,
      (fullFields s.schema)[k]? = some g → g.dataType = .float64 →
        ∀ c, f.1.stats.lookup g.name = some c →
          float64Stats (slots k) (f.2.rows.map (Row.cell · k)) = some c := by
    intro e
    by_cases he : ∃ f ∈ cat.files, f.1 = e
    · obtain ⟨f, hf, rfl⟩ := he
      obtain ⟨slots, hslots⟩ := (h.fileStats f hf).floats
      refine ⟨slots, fun f' hf' heq => ?_⟩
      -- one entry, one stored batch
      have hsame : some (Object.rows f'.2) = some (Object.rows f.2) := by
        rw [← hs.files f' hf', ← hs.files f hf, heq]
      obtain ⟨e', rows⟩ := f'
      obtain rfl : e' = f.1 := heq
      cases hsame
      exact hslots
    · exact ⟨fun _ _ => Binary.zero 11 52, fun f hf hfe => absurd ⟨f, hf, hfe⟩ he⟩
  choose slots hslots using hslots
  exact ⟨slots, fun f hf => hslots f.1 f hf rfl⟩

/-- No statistics are recorded for the leaf's column, or the column lets it through. -/
def LeafAdmits (stats : Stats) (slots : Slots) (schema : Schema) (rows : List Row) (op : CmpOp)
    (column : String) (v : Value) : Prop :=
  stats.lookup column = none ∨ ColumnAdmits slots schema rows op column v

/-- Over float columns a batch is pruned soundly exactly when it has no matching row or
its columns let the tree through. A scan with a predicate shows what filtering the full
scan shows exactly when this is so of every file with a matching live row; a file whose
column was packed when it was migrated has no bounds there. -/
theorem float_pruning_sound_iff (P : Platform) :
    (∀ (slots : Slots) (batch : RecordBatch) (p : Predicate),
      (batch.schema.fields.map Field.name).Nodup → p.All (LeafFloat batch.schema) →
      ((∀ m, shouldScanFile (computeStats slots batch) p = false → mask batch p = .ok m →
          ∀ b ∈ m, b ≠ some true) ↔
        ((∃ r ∈ batch.rows, p.eval (rowLeaf batch.schema r) = some true) →
          p.Holds (ColumnAdmits slots batch.schema batch.rows)))) ∧
    ∀ sys : System, (system P).Reachable sys →
      ∀ b ∈ sys.dataset.current :: sys.held, ∃ slots : DataFileEntry → Slots,
      ∀ (requested : Schema) (p : Predicate) (full result : RecordBatch),
      p.All (LeafFloat (fullSchema b.schema)) →
      b.scan P sys.dataset.store requested = .ok full → filter full p = .ok result →
      (b.scanWithPredicate P sys.dataset.store requested p = .ok result ↔
        ∀ e ∈ b.manifest.dataFiles, ∀ stored, readBatch sys.dataset.store e.name = .ok stored →
          (∃ r ∈ (b.liveBatch stored).rows,
            p.eval (rowLeaf (fullSchema b.schema) r) = some true) →
          p.Holds (LeafAdmits e.stats (slots e) (fullSchema b.schema) stored.rows)) := by
  refine ⟨fun slots batch p hn hp => float_mask_of_pruned_iff hn hp, ?_⟩
  intro sys hreach b hb
  obtain ⟨cat, hv, hstored⟩ := (System.inv_of_reachable hreach).snapshot_valid hb
  obtain ⟨slots, hslots⟩ := hv.exists_slots hstored
  refine ⟨slots, fun requested p full result hp hscan hfilter => ?_⟩
  have hpass : ∀ f ∈ cat.files, shouldScanFile f.1.stats p = true ↔
      p.Holds (LeafAdmits f.1.stats (slots f.1) (fullSchema b.schema) f.2.rows) := by
    intro f hf
    refine shouldScanFile_iff_holds (hp.imp fun op c v hleaf => ?_)
    cases hs : f.1.stats.lookup c with
    | none => simp [leafScan, leafMayMatch, LeafAdmits, hs]
    | some entry =>
      obtain ⟨i, hi, htype⟩ := hleaf.1
      obtain ⟨g, hg, rfl, hat⟩ := indexOf_eq_some hi
      rw [LeafAdmits, hs, or_iff_right (Option.some_ne_none _)]
      refine leafScan_float hleaf hs fun j hj => ?_
      rw [hi] at hj
      cases hj
      exact hslots f hf i g hg (by rw [← hat, htype]) entry hs
  have hread : ∀ f ∈ cat.files, readBatch sys.dataset.store f.1.name = .ok f.2 := fun f hf => by
    rw [readBatch, hstored.files f hf]
  rw [hv.scanWithPredicate_iff hstored hscan hfilter, hv.files_eq, List.forall_mem_map]
  refine forall₂_congr fun f hf => ?_
  constructor
  · rintro hskip stored hstored ⟨r, hr, hsel⟩
    cases (hread f hf).symm.trans hstored
    refine (hpass f hf).mp ?_
    by_contra hno
    exact hskip (by simpa using hno) r hr hsel
  · intro hmatch hskip r hr hsel
    rw [(hpass f hf).mpr (hmatch f.2 (hread f hf) ⟨r, hr, hsel⟩)] at hskip
    cases hskip

/-- The numbers one and five, and a positive NaN. -/
def one : F64 := ⟨false, 1023 * 2 ^ 52, by decide⟩

@[inherit_doc one] def five : F64 := ⟨false, 1025 * 2 ^ 52 + 2 ^ 50, by decide⟩

@[inherit_doc one] def nan : F64 := ⟨false, 2047 * 2 ^ 52 + 2 ^ 51, by decide⟩

/-- The value slots of a column without nulls do not matter. -/
def zeroSlots : Slots := fun _ _ => Binary.zero 11 52

/-- A tree that the bounds of a one let through although they fail one of its leaves. -/
def eitherScore : Predicate :=
  .or (.lt "score" (.float64 one)) (.gt "score" (.float64 (Binary.zero 11 52)))

/-- One is above zero, and so is the NaN that the bounds leave out. -/
theorem float_pruning_sound_iff_one :
    (∀ m, shouldScanFile (computeStats zeroSlots (scoreBatch [one, nan])) eitherScore = false →
      mask (scoreBatch [one, nan]) eitherScore = .ok m → ∀ b ∈ m, b ≠ some true) ∧
    ∃ s result, plainRun scoreSchema (insertLabels (scoreBatch [one, nan])) = some s ∧
      s.dataset.current.scanWithPredicate plainPlatform s.dataset.store scoreSchema eitherScore =
        .ok result ∧ result.rows = [[.float64 one], [.float64 nan]] := by
  constructor
  · refine ((float_pruning_sound_iff plainPlatform).1 zeroSlots (scoreBatch [one, nan])
      eitherScore (by decide) ?_).mpr fun _ => Or.inr fun i w hi hw => ?_
    · exact ⟨⟨⟨0, rfl, rfl⟩, _, rfl⟩, ⟨⟨0, rfl, rfl⟩, _, rfl⟩⟩
    · obtain rfl : 0 = i := Option.some.inj hi
      cases hw
      decide +kernel
  · have hrun : (plainRun scoreSchema (insertLabels (scoreBatch [one, nan]))).bind (fun s =>
        (s.dataset.current.scan plainPlatform s.dataset.store scoreSchema).toOption.bind
          fun full => (filter full eitherScore).toOption.map fun result =>
            (s.dataset.current.schema, result.rows,
              s.dataset.current.manifest.dataFiles.map fun e =>
                (readBatch s.dataset.store e.name).toOption.map fun stored =>
                  stored.rows.map (Row.cell · 0))) =
        some (scoreSchema, [[.float64 one], [.float64 nan]],
          [some [.float64 one, .float64 nan]]) := by
      decide +kernel
    obtain ⟨s, hs, hrun⟩ := Option.bind_eq_some_iff.mp hrun
    obtain ⟨full, hfull, hrun⟩ := Option.bind_eq_some_iff.mp hrun
    obtain ⟨result, hresult, hout⟩ := Option.map_eq_some_iff.mp hrun
    simp only [Prod.mk.injEq] at hout
    obtain ⟨hschema, hrows, hfiles⟩ := hout
    refine ⟨s, result, hs, ?_, hrows⟩
    obtain ⟨slots, hiff⟩ := (float_pruning_sound_iff _).2 s (reachable_runOn hs) _
      List.mem_cons_self
    refine (hiff scoreSchema eitherScore full result ?_ (toOption_eq_some.mp hfull)
      (toOption_eq_some.mp hresult)).mpr ?_
    · rw [hschema]
      exact ⟨⟨⟨0, rfl, rfl⟩, _, rfl⟩, ⟨⟨0, rfl, rfl⟩, _, rfl⟩⟩
    · rintro e he stored hstored -
      have hcells : some (stored.rows.map (Row.cell · 0)) ∈ [some [.float64 one, .float64 nan]] :=
        hfiles ▸ List.mem_map.mpr ⟨e, he, by rw [hstored]; rfl⟩
      refine Or.inr (Or.inr fun i w hi hw => ?_)
      rw [hschema] at hi
      obtain rfl : 0 = i := Option.some.inj hi
      cases hw
      rw [Option.some.inj (List.mem_singleton.mp hcells)]
      show FloatAdmits .gt (zeroSlots 0) _ _
      decide +kernel

/-- A committed NaN is above five, but the file's bounds are both one. -/
theorem float_pruning_unsound :
    (shouldScanFile (computeStats zeroSlots (scoreBatch [one, nan]))
        (.gt "score" (.float64 five)) = false ∧
      mask (scoreBatch [one, nan]) (.gt "score" (.float64 five)) = .ok [some false, some true]) ∧
    ∃ s full result, plainRun scoreSchema (insertLabels (scoreBatch [one, nan])) = some s ∧
      s.dataset.current.scan plainPlatform s.dataset.store scoreSchema = .ok full ∧
      filter full (.gt "score" (.float64 five)) = .ok result ∧
      s.dataset.current.scanWithPredicate plainPlatform s.dataset.store scoreSchema
        (.gt "score" (.float64 five)) ≠ .ok result := by
  refine ⟨⟨by decide +kernel, by decide +kernel⟩, ?_⟩
  have hrun : (plainRun scoreSchema (insertLabels (scoreBatch [one, nan]))).bind (fun s =>
      (s.dataset.current.scan plainPlatform s.dataset.store scoreSchema).toOption.bind fun full =>
        (filter full (.gt "score" (.float64 five))).toOption.map fun result =>
          (result.rows, (s.dataset.current.scanWithPredicate plainPlatform s.dataset.store
            scoreSchema (.gt "score" (.float64 five))).toOption.map RecordBatch.rows)) =
      some ([[.float64 nan]], some []) := by
    decide +kernel
  obtain ⟨s, hs, hrun⟩ := Option.bind_eq_some_iff.mp hrun
  obtain ⟨full, hfull, hrun⟩ := Option.bind_eq_some_iff.mp hrun
  obtain ⟨result, hresult, hout⟩ := Option.map_eq_some_iff.mp hrun
  obtain ⟨hrows, hskipped⟩ := Prod.mk.inj hout
  refine ⟨s, full, result, hs, toOption_eq_some.mp hfull, toOption_eq_some.mp hresult, ?_⟩
  intro heq
  rw [toOption_eq_some.mpr heq, Option.map_some, hrows] at hskipped
  cases hskipped

end StrataDB.Txn
