import StrataDB.Txn.Safety

/-! What the statistics of a batch do to its commit. The manifest's JSON carries
no infinity and no NaN, so a commit whose statistics have such a bound is refused
when its manifest is decoded before publication. -/

namespace StrataDB.Txn

open Lib Arrow Index Storage

/-- Every float column of the batch has finite bounds. -/
def FiniteStats (slots : Slots) (batch : RecordBatch) : Prop :=
  ∀ k f, batch.schema.fields[k]? = some f → f.dataType = .float64 →
    FiniteBounds (slots k) (batch.column k)

/-- The manifest with one more row file. -/
def attachFile (m : Manifest) (entry : DataFileEntry) : Manifest :=
  { m with version := m.version + 1, dataFiles := m.dataFiles ++ [entry] }

variable {m : Manifest} {entry : DataFileEntry} {y : F64}

theorem mem_floats_attachFile :
    y ∈ (attachFile m entry).floats ↔ y ∈ m.floats ∨ y ∈ Stats.floats entry.stats := by
  simp only [attachFile, Manifest.floats, List.flatMap_append, List.flatMap_singleton,
    List.mem_append]
  tauto

theorem mem_floats_committedStats {slots : Slots} {batch : RecordBatch}
    (hw : WellNamed batch.schema) (ts : ℤ) :
    y ∈ Stats.floats (committedStats slots batch ts) ↔
      y ∈ Stats.floats (computeStats slots batch) := by
  simp only [mem_floats_iff, committedStats]
  constructor
  · rintro ⟨name, s, hs, hy⟩
    by_cases hname : name = timestampColumn
    · rw [hname, AList.lookup_insert] at hs
      cases hs
      simp [ColumnStats.floats] at hy
    · rw [AList.lookup_insert_ne hname] at hs
      exact ⟨name, s, hs, hy⟩
  · rintro ⟨name, s, hs, hy⟩
    obtain ⟨k, f, hk, hname, -⟩ := computeStats_lookup hs
    refine ⟨name, s, ?_, hy⟩
    rw [AList.lookup_insert_ne, hs]
    rintro rfl
    exact hw.not_hidden f (List.mem_of_getElem? hk) (by simp [hname, hiddenColumns])

/-- Decoding accepts the manifest with one more file exactly when the file's
bounds are finite. -/
theorem decode_attachFile_iff {F : Format} (hfinite : ∀ x, x.isFinite = true → F.floatRoundTrips x)
    (hm : decodeManifest F m.version m = .ok m)
    (hlimits : F.withinLimits (attachFile m entry) = true) :
    (∃ m', decodeManifest F (m.version + 1) (attachFile m entry) = .ok m') ↔
      ∀ y ∈ Stats.floats entry.stats, y.isFinite = true := by
  obtain ⟨-, -, hfloats, -, hschema⟩ := decodeManifest_eq_ok.mp hm
  rw [List.all_eq_true] at hfloats
  simp only [decodeManifest_eq_ok, List.all_eq_true]
  constructor
  · rintro ⟨m', -, -, hall, -⟩ y hy
    exact F.isFinite_of_roundTrips y (hall y (mem_floats_attachFile.mpr (.inr hy)))
  · intro hentry
    refine ⟨_, rfl, hlimits, fun y hy => ?_, rfl, hschema⟩
    rcases mem_floats_attachFile.mp hy with hy | hy
    · exact hfloats y hy
    · exact hfinite y (hentry y hy)

/-- An accepted batch is committed, within the limits of the format, exactly when
its float columns have finite bounds, whatever the slots of its nulls hold. -/
theorem stats_decode_iff {P : Platform} {s : System} (h : (system P).Reachable s)
    (hfinite : ∀ x, x.isFinite = true → P.format.floatRoundTrips x = true)
    {id : ℕ} {txn txn' : Transaction} (hid : s.txns[id]? = some ⟨txn, .staging⟩)
    {batch : RecordBatch} (hinsert : txn.insert batch = .ok txn') (slots : Slots)
    {m : Manifest} (hm : decodeManifest P.format m.version m = .ok m) {entry : DataFileEntry}
    (hstats : entry.stats = computeStats slots batch ∨
      ∃ ts, entry.stats = committedStats slots batch ts)
    (hlimits : P.format.withinLimits (attachFile m entry) = true) :
    (∃ m', decodeManifest P.format (m.version + 1) (attachFile m entry) = .ok m') ↔
      FiniteStats slots batch := by
  have hschema : batch.schema = txn.schema := by
    simp only [Transaction.insert, Transaction.validateBatch, bind_eq_ok, ensure_eq_ok] at hinsert
    exact hinsert.choose_spec.1
  have hw : WellNamed batch.schema := by
    rw [hschema]
    exact (System.inv_of_reachable h).wellNamed_txn (List.mem_of_getElem? hid)
  simp only [FiniteStats, ← float64Stats_finite_iff]
  rw [decode_attachFile_iff hfinite hm hlimits, ← forall_floats_computeStats hw.nodup]
  rcases hstats with hstats | ⟨ts, hstats⟩
  · rw [hstats]
  · rw [hstats]
    simp only [mem_floats_committedStats hw ts]

/-- A table of one float column. -/
def scoreSchema : Schema := ⟨[Field.new "score" .float64 false], []⟩

def scoreBatch (scores : List F64) : RecordBatch :=
  batchOf scoreSchema (scores.map fun x => [.float64 x])

theorem infinity_fits : Binary.infinity 11 52 < 2 ^ (11 + 52) := by decide

/-- Positive infinity. -/
def infinite : F64 := ⟨false, Binary.infinity 11 52, infinity_fits⟩

/-- The entry of a row file with the statistics of this batch, which has no nulls. -/
def scoreEntry (scores : List F64) : DataFileEntry where
  name := .rowFile 0 0
  byteLen := 0
  crc32c := 0
  rowCount := scores.length
  rowIdRange := rowIdRangeOf 0 scores.length
  stats := computeStats (fun _ _ => Binary.zero 11 52) (scoreBatch scores)

theorem Stage.eq_staging {stage : Stage} (ha : stage.alive = true) (hp : stage.preparing = false) :
    stage = .staging := by
  cases stage <;> simp_all [Stage.alive, Stage.preparing]

/-- A new dataset with a transaction, which accepts every batch of scores. -/
theorem exists_scoreTxn : ∃ s txn, plainRun scoreSchema [.begin] = some s ∧
    s.txns[0]? = some ⟨txn, .staging⟩ ∧
    (∀ scores, ∃ txn', txn.insert (scoreBatch scores) = .ok txn') ∧
    s.dataset.current.manifest = Manifest.emptyWithSchema scoreSchema := by
  have hrun : (plainRun scoreSchema [.begin]).map (fun s =>
      (s.txns.map fun t => (t.txn.schema, t.stage.alive, t.stage.preparing),
        s.dataset.current.manifest)) =
      some ([(scoreSchema, true, false)], Manifest.emptyWithSchema scoreSchema) := by
    decide +kernel
  obtain ⟨s, hs, hout⟩ := Option.map_eq_some_iff.mp hrun
  obtain ⟨htxns, hmanifest⟩ := Prod.mk.inj hout
  obtain ⟨⟨txn, stage⟩, rest, htxn, htail, -⟩ := List.map_eq_cons_iff.mp htxns
  simp only [Prod.mk.injEq] at htail
  obtain ⟨hschema, halive, hprep⟩ := htail
  obtain rfl := Stage.eq_staging halive hprep
  refine ⟨s, txn, hs, by rw [htxn]; rfl, fun scores => ?_, hmanifest⟩
  refine ⟨{ txn with pending := txn.pending ++ [scoreBatch scores] }, ?_⟩
  simp only [Transaction.insert, Transaction.validateBatch, bind_eq_ok, ensure_eq_ok]
  exact ⟨(), hschema.symm, rfl⟩

/-- A finite value in the first transaction. -/
theorem stats_decode_iff_zero :
    ∃ s txn txn', plainRun scoreSchema [.begin] = some s ∧ s.txns[0]? = some ⟨txn, .staging⟩ ∧
      txn.insert (scoreBatch [Binary.zero 11 52]) = .ok txn' ∧
      ∃ m', decodeManifest plainPlatform.format (s.dataset.current.manifest.version + 1)
        (attachFile s.dataset.current.manifest (scoreEntry [Binary.zero 11 52])) = .ok m' := by
  obtain ⟨s, txn, hs, hid, hinsert, hm⟩ := exists_scoreTxn
  obtain ⟨txn', hinsert⟩ := hinsert [Binary.zero 11 52]
  have hdecode : decodeManifest plainPlatform.format s.dataset.current.manifest.version
      s.dataset.current.manifest = .ok s.dataset.current.manifest := by
    rw [hm]
    rfl
  refine ⟨s, txn, txn', hs, hid, hinsert, (stats_decode_iff (reachable_runOn hs)
    (fun _ hx => hx) hid hinsert (fun _ _ => Binary.zero 11 52) hdecode (.inl rfl) rfl).mpr
    fun k f hk hf => ?_⟩
  have hk' : k = 0 := by
    have := (List.getElem?_eq_some_iff.mp hk).1
    simpa [scoreBatch, batchOf, scoreSchema] using this
  subst hk'
  decide +kernel

/-- An infinite value: the batch is accepted, and its commit is refused. -/
theorem stats_block_commit :
    (∃ s txn txn', plainRun scoreSchema [.begin] = some s ∧ s.txns[0]? = some ⟨txn, .staging⟩ ∧
      txn.insert (scoreBatch [infinite]) = .ok txn' ∧
      ∃ e, decodeManifest plainPlatform.format (s.dataset.current.manifest.version + 1)
        (attachFile s.dataset.current.manifest (scoreEntry [infinite])) = .error e) ∧
    ∃ s, plainRun scoreSchema (insertLabels (scoreBatch [infinite])) = some s ∧
      (s.txns.map fun t => match t.stage with
        | .finished (.error e) => some e
        | _ => none) = [some (.storage (.corruptManifest (.manifest 1)
          "invalid type: null, expected f64"))] ∧
      s.dataset.current.version = 0 := by
  constructor
  · obtain ⟨s, txn, hs, hid, hinsert, hm⟩ := exists_scoreTxn
    obtain ⟨txn', hinsert⟩ := hinsert [infinite]
    refine ⟨s, txn, txn', hs, hid, hinsert, ?_⟩
    rw [hm]
    exact exists_error_of_isOk_eq_false (by decide +kernel)
  · have hrun : (plainRun scoreSchema (insertLabels (scoreBatch [infinite]))).map (fun s =>
        (s.txns.map fun t => match t.stage with
          | .finished (.error e) => some e
          | _ => none, s.dataset.current.version)) =
        some ([some (.storage (.corruptManifest (.manifest 1)
          "invalid type: null, expected f64"))], 0) := by
      decide +kernel
    obtain ⟨s, hs, hout⟩ := Option.map_eq_some_iff.mp hrun
    obtain ⟨htxns, hversion⟩ := Prod.mk.inj hout
    exact ⟨s, hs, htxns, hversion⟩

end StrataDB.Txn
