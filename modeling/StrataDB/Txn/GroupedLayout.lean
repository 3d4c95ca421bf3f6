import StrataDB.Txn.GroupedResults

/-! Grouped results and the division of rows into files. Grouping file by file, grouping
in one pass and grouping after a compaction add the same numbers, each in an order of its
own. They agree exactly when the same sum is the first to leave `i64`, or none does. -/

namespace StrataDB.Txn

open Lib Arrow Index Storage Query

variable {P : Platform} {F : FloatOps} {s : Snapshot} {cat : Catalog} {store : Store}
  {request : GroupByRequest}

variable {x : Except QueryError GroupByResult} {d d₁ : Dataset} {ts : ℤ}
  {files : List (DataFileEntry × RecordBatch)} {segment : Option PublishedSegment}

/-- The request is valid for the columns of the snapshot. -/
def Snapshot.AcceptsGroupBy (s : Snapshot) (request : GroupByRequest) : Prop :=
  ∃ q outputs, s.querySchema = .ok q ∧ q.validateGroupBy request = .ok outputs

/-- The rows of every file that satisfy the filter of a request. -/
def filteredFiles (schema : Schema) (request : GroupByRequest) (files : List (List Row)) :
    List (List Row) :=
  files.map fun rows => rows.filter (selects (fullSchema schema) request.filter)

/-- An invalid request is refused before anything is grouped. -/
theorem Snapshot.answerGroupBy_of_refused (h : ¬ s.AcceptsGroupBy request)
    (group group' : List AggregateState → Except QueryError Groups) :
    s.answerGroupBy F request group = s.answerGroupBy F request group' := by
  unfold Snapshot.answerGroupBy
  cases hquery : s.querySchema with
  | error e => rfl
  | ok q =>
    rw [ok_bind, ok_bind]
    cases hval : q.validateGroupBy request with
    | error e => rfl
    | ok outputs => exact absurd ⟨q, outputs, hquery, hval⟩ h

/-- A snapshot against a transaction on it that has staged nothing. -/
theorem Snapshot.Valid.groupByQuery_eq_unstaged_iff {t : Transaction} (hv : t.base.Valid P cat)
    (hs : cat.StoredIn store) (hlen : (cat.liveRows t.base.tombstones).length < u64Bound)
    (hint : ∀ a ∈ request.aggregates, a.IsInteger t.base.schema) (hpending : t.pending = [])
    (htombstones : t.pendingTombstones = []) :
    t.base.groupByQuery P F store request = t.groupByQuery P F store request ↔
      (t.base.AcceptsGroupBy request →
        firstOverflow (fullSchema t.base.schema) request (t.base.groupedFiles cat request) =
          firstOverflow (fullSchema t.base.schema) request
            [(t.base.groupedFiles cat request).flatten]) := by
  by_cases hvalid : t.base.AcceptsGroupBy request
  · obtain ⟨q, outputs, hquery, hval⟩ := id hvalid
    have hreq := integerRequest_of_valid hv.wellNamed hquery
      (DatasetSchema.validateGroupBy_eq_ok hval) hint
    rw [hreq.groupByQuery hv hs hquery hval hlen,
      hreq.groupByQuery_unstaged hv hs hquery hval hlen hpending htombstones, report_inj]
    exact ⟨fun h _ => h, fun h => h hvalid⟩
  · refine iff_of_true ?_ fun h => absurd h hvalid
    obtain ⟨batches, hbatches, ho⟩ := Transaction.overlayBatches_eq_ok hv hs (by simp [hpending])
      (show t.pending.flatMap RecordBatch.rows = ([] : List Row).map _ by simp [hpending])
    rw [hv.groupByQuery hs, Transaction.groupByQuery, hbatches, engine_ok, ok_bind,
      ho.groupByQueryOverlay hv.wellNamed]
    exact Snapshot.answerGroupBy_of_refused hvalid _ _

/-- The files of a compaction are the runs of the live rows. -/
theorem Compacts.groupedFiles (hc : Compacts P d d₁ cat files segment) (request : GroupByRequest) :
    (compacted d d₁ ts files segment).groupedFiles (Catalog.fresh files segment) request =
        filteredFiles d.current.schema request (files.map fun f => f.2.rows) ∧
      ((compacted d d₁ ts files segment).groupedFiles (Catalog.fresh files segment)
          request).flatten = (d.current.groupedFiles cat request).flatten := by
  constructor
  · rw [Snapshot.groupedFiles, filteredFiles, List.map_map]
    refine List.map_congr_left fun f _ => ?_
    have hlive : ((compacted d d₁ ts files segment).liveBatch f.2).rows = f.2.rows :=
      List.filter_eq_self.mpr fun r _ => by simp [compactedSnapshot]
    rw [hlive]
    rfl
  · rw [groupedFiles_flatten, groupedFiles_flatten, hc.liveRows]
    rfl

theorem Compacts.groupByQuery_eq_iff (hc : Compacts P d d₁ cat files segment)
    (hs : cat.StoredIn d.store)
    (hvalid : (compacted d d₁ ts files segment).Valid P (Catalog.fresh files segment))
    {after : Store} (hafter : (Catalog.fresh files segment).StoredIn after)
    (hlen : (cat.liveRows d.current.tombstones).length < u64Bound)
    (hint : ∀ a ∈ request.aggregates, a.IsInteger d.current.schema) :
    d.current.groupByQuery P F d.store request =
        (compacted d d₁ ts files segment).groupByQuery P F after request ↔
      (d.current.AcceptsGroupBy request →
        firstOverflow (fullSchema d.current.schema) request (d.current.groupedFiles cat request) =
          firstOverflow (fullSchema d.current.schema) request
            (filteredFiles d.current.schema request (files.map fun f => f.2.rows))) := by
  obtain ⟨hfiles, hflatten⟩ := hc.groupedFiles request
  by_cases haccepts : d.current.AcceptsGroupBy request
  · obtain ⟨q, outputs, hquery, hval⟩ := id haccepts
    have hreq := integerRequest_of_valid hc.source.wellNamed hquery
      (DatasetSchema.validateGroupBy_eq_ok hval) hint
    have hreq' : IntegerRequest (compacted d d₁ ts files segment) request outputs :=
      integerRequest_of_valid hvalid.wellNamed hquery
        (DatasetSchema.validateGroupBy_eq_ok hval) hint
    have hafter := hreq'.groupByQuery (F := F) hvalid hafter hquery hval (by rwa [hc.liveRows])
    rw [hflatten, hfiles] at hafter
    rw [hreq.groupByQuery hc.source hs hquery hval hlen, hafter]
    exact report_inj.trans ⟨fun h _ => h, fun h => h haccepts⟩
  · refine iff_of_true ?_ fun h => absurd h haccepts
    rw [hc.source.groupByQuery hs, hvalid.groupByQuery hafter]
    exact Snapshot.answerGroupBy_of_refused haccepts _ _

theorem groupedFiles_eq_filteredFiles (s : Snapshot) (cat : Catalog) (request : GroupByRequest) :
    s.groupedFiles cat request = filteredFiles s.schema request
      ((cat.files.map fun f => s.liveBatch f.2).map RecordBatch.rows) := by
  rw [Snapshot.groupedFiles, filteredFiles, List.map_map, List.map_map]
  rfl

/-- A transaction that has staged nothing, and a compaction, answer a request with counts
and integer aggregates as the snapshot does, to the alias of an overflow, exactly when
the first sum on the way that does not fit is the same: on the way of the snapshot those
inside each file and then over the files up to it, on the way of the transaction those
over the first rows, and after the compaction those inside each run of consecutive ids
and then over the runs up to it. -/
theorem grouped_layout_iff {sys : System} (hreach : (system P).Reachable sys) :
    (∀ b ∈ sys.dataset.current :: sys.held,
      ∃ batches, b.readSurvivingPhysicalBatches sys.dataset.store = .ok batches ∧
        ∀ request : GroupByRequest, (∀ a ∈ request.aggregates, a.IsInteger b.schema) →
        ∀ files, files = filteredFiles b.schema request (batches.map RecordBatch.rows) →
        ∀ t : Transaction, t.base = b → t.pending = [] → t.pendingTombstones = [] →
          (b.groupByQuery P F sys.dataset.store request =
              t.groupByQuery P F sys.dataset.store request ↔
            (b.AcceptsGroupBy request → firstOverflow (fullSchema b.schema) request files =
              firstOverflow (fullSchema b.schema) request [files.flatten]))) ∧
    ∀ clock faults sys', (system P).step sys (.compact clock faults) = some sys' →
      sys'.dataset.current.version ≠ sys.dataset.current.version →
      ∃ batches runs,
        sys.dataset.current.readSurvivingPhysicalBatches sys.dataset.store = .ok batches ∧
        MaximalRuns storedRowId (batches.flatMap RecordBatch.rows) runs ∧
        ∀ request : GroupByRequest,
          (∀ a ∈ request.aggregates, a.IsInteger sys.dataset.current.schema) →
          (sys.dataset.current.groupByQuery P F sys.dataset.store request =
              sys'.dataset.current.groupByQuery P F sys'.dataset.store request ↔
            (sys.dataset.current.AcceptsGroupBy request →
              firstOverflow (fullSchema sys.dataset.current.schema) request
                  (filteredFiles sys.dataset.current.schema request
                    (batches.map RecordBatch.rows)) =
                firstOverflow (fullSchema sys.dataset.current.schema) request
                  (filteredFiles sys.dataset.current.schema request runs))) := by
  have hi := System.inv_of_reachable hreach
  refine ⟨fun b hb => ?_, fun clock faults sys' hstep hpub => ?_⟩
  · obtain ⟨cat, hv, hstored⟩ := hi.snapshot_valid hb
    refine ⟨_, hv.readSurvivingPhysicalBatches hstored, ?_⟩
    rintro request hint _ rfl t rfl hpending htombstones
    rw [← groupedFiles_eq_filteredFiles]
    exact hv.groupByQuery_eq_unstaged_iff hstored (liveRows_length_lt hreach hb hv) hint hpending
      htombstones
  · obtain ⟨_, cat, _, _, _, hv, _, hstored⟩ := hi.recorded.current_valid
    change lifecycleStep P sys (.compact clock faults) = some sys' at hstep
    simp only [lifecycleStep] at hstep
    split at hstep
    · cases hstep
      rcases hrun : publishCompaction P clock faults sys.dataset with ⟨r, d⟩
      rw [hrun] at hpub
      rcases publishCompaction_cases hv hstored hi.recorded.rowIds_le hi.recorded.latest.free hrun
        with ⟨d₁, ts, files, segment, hc, _, rfl, hvalid⟩ | ⟨_, hadv⟩
      · refine ⟨_, files.map fun f => f.2.rows, hv.readSurvivingPhysicalBatches hstored, ?_,
          fun request hint => ?_⟩
        · rw [List.flatMap_map, ← liveRows_eq_flatMap]
          exact hc.rows.runs
        · rw [← groupedFiles_eq_filteredFiles]
          exact hc.groupByQuery_eq_iff hstored hvalid (hc.storedIn.insert _)
            (liveRows_length_lt hreach List.mem_cons_self hv) hint
      · exact absurd (congrArg Snapshot.version hadv.current_eq) hpub
    · cases hstep

/-- The largest amount in one file, and two that cancel out in the next. -/
def cancelLabels : List Label :=
  insertLabels (ledgerBatch [(7, some (2 ^ 63 - 1))]) ++
    [.begin, .insert 1 (ledgerBatch [(7, some 1), (7, some (-1))])] ++ commitLabels 1 2

/-- The total of a result, or the overflow of one. -/
def totalOutcome (x : Except QueryError GroupByResult) : Option (List GroupedRow) × Bool :=
  (x.toOption.map GroupByResult.rows,
    match x with
    | .error e => e = .execution (.int64SumOverflow "total")
    | .ok _ => false)

theorem totalOutcome_ok {rows : List GroupedRow} (h : (totalOutcome x).1 = some rows) :
    ∃ result, x = .ok result ∧ result.rows = rows := by
  obtain ⟨result, hx, hrows⟩ := Option.map_eq_some_iff.mp h
  exact ⟨result, toOption_eq_some.mp hx, hrows⟩

theorem totalOutcome_error (h : (totalOutcome x).2 = true) :
    x = .error (.execution (.int64SumOverflow "total")) := by
  cases x with
  | error e => simpa [totalOutcome] using h
  | ok result => cases h

theorem cancel_run :
    ∃ s s' result, plainRun ledgerSchema cancelLabels = some s ∧
      (system plainPlatform).step s (.compact (some 3) {}) = some s' ∧
      s'.dataset.current.version ≠ s.dataset.current.version ∧
      s.dataset.current.schema = ledgerSchema ∧
      s.dataset.current.groupByQuery plainPlatform noFloatOps s.dataset.store totals =
        .ok result ∧
      result.rows = [⟨[.int64 7], [.uint64 3, .int64 (2 ^ 63 - 1)]⟩] ∧
      (Transaction.begin s.dataset).groupByQuery plainPlatform noFloatOps s.dataset.store
        totals = .error (.execution (.int64SumOverflow "total")) ∧
      s'.dataset.current.groupByQuery plainPlatform noFloatOps s'.dataset.store totals =
        .error (.execution (.int64SumOverflow "total")) := by
  have hrun : (plainRun ledgerSchema cancelLabels).bind (fun s =>
      (systemStep plainPlatform s (.compact (some 3) {})).map fun s' =>
        (decide (s'.dataset.current.version ≠ s.dataset.current.version ∧
            s.dataset.current.schema = ledgerSchema),
          (totalOutcome (s.dataset.current.groupByQuery plainPlatform noFloatOps s.dataset.store
            totals)).1,
          (totalOutcome ((Transaction.begin s.dataset).groupByQuery plainPlatform noFloatOps
            s.dataset.store totals)).2,
          (totalOutcome (s'.dataset.current.groupByQuery plainPlatform noFloatOps
            s'.dataset.store totals)).2)) =
      some (true, some [⟨[.int64 7], [.uint64 3, .int64 (2 ^ 63 - 1)]⟩], true, true) := by
    decide +kernel
  obtain ⟨s, hs, hrun⟩ := Option.bind_eq_some_iff.mp hrun
  obtain ⟨s', hstep, hout⟩ := Option.map_eq_some_iff.mp hrun
  simp only [Prod.mk.injEq, decide_eq_true_eq] at hout
  obtain ⟨⟨hpub, hschema⟩, hfiles, hpass, hafter⟩ := hout
  obtain ⟨result, hresult, hrows⟩ := totalOutcome_ok hfiles
  exact ⟨s, s', result, hs, hstep, hpub, hschema, hresult, hrows, totalOutcome_error hpass,
    totalOutcome_error hafter⟩

/-- File by file the total is the largest amount; in one pass and after a compaction it
overflows. -/
theorem grouped_layout_cancel :
    ∃ s s', plainRun ledgerSchema cancelLabels = some s ∧
      (system plainPlatform).step s (.compact (some 3) {}) = some s' ∧
      (∀ a ∈ totals.aggregates, a.IsInteger s.dataset.current.schema) ∧
      (∃ result, s.dataset.current.groupByQuery plainPlatform noFloatOps s.dataset.store totals =
          .ok result ∧
        result.rows = [⟨[.int64 7], [.uint64 3, .int64 (2 ^ 63 - 1)]⟩]) ∧
      (Transaction.begin s.dataset).groupByQuery plainPlatform noFloatOps s.dataset.store
        totals = .error (.execution (.int64SumOverflow "total")) ∧
      s'.dataset.current.groupByQuery plainPlatform noFloatOps s'.dataset.store totals =
        .error (.execution (.int64SumOverflow "total")) := by
  obtain ⟨s, s', result, hs, hstep, -, hschema, hresult, hrows, hpass, hafter⟩ := cancel_run
  exact ⟨s, s', hs, hstep, totals_isInteger hschema, ⟨result, hresult, hrows⟩, hpass, hafter⟩

theorem grouped_layout_iff_cancel :
    ∃ s s' batches runs, plainRun ledgerSchema cancelLabels = some s ∧
      (system plainPlatform).step s (.compact (some 3) {}) = some s' ∧
      s.dataset.current.readSurvivingPhysicalBatches s.dataset.store = .ok batches ∧
      MaximalRuns storedRowId (batches.flatMap RecordBatch.rows) runs ∧
      firstOverflow (fullSchema ledgerSchema) totals
          (filteredFiles ledgerSchema totals (batches.map RecordBatch.rows)) ≠
        firstOverflow (fullSchema ledgerSchema) totals
          (filteredFiles ledgerSchema totals runs) := by
  obtain ⟨s, s', result, hs, hstep, hpub, hschema, hresult, -, -, hafter⟩ := cancel_run
  obtain ⟨batches, runs, hbatches, hruns, hiff⟩ :=
    (grouped_layout_iff (F := noFloatOps) (reachable_runOn hs)).2 _ _ s' hstep hpub
  refine ⟨s, s', batches, runs, hs, hstep, hbatches, hruns, fun hsame => ?_⟩
  rw [← hschema] at hsame
  have heq := (hiff totals (totals_isInteger hschema)).mpr fun _ => hsame
  rw [hresult, hafter] at heq
  cases heq

end StrataDB.Txn
