import StrataDB.Txn.Explain
import StrataDB.Txn.VectorResults

/-! Plans say what executions read. The recorded executions return what the plain ones do,
and what they record is counted by the plan that is made for the same request. -/

namespace StrataDB.Txn

open Lib Arrow Index Storage Query

variable {P : Platform} {s : Snapshot} {store : Store}

/-! ### Recorded executions -/

namespace Snapshot

section

variable {α : Type} {predicate : Option Predicate} {columns : Option (List String)}
  {process : RecordBatch → Except TxnError α}

theorem readFilesTraced_erases (entries : List DataFileEntry) :
    Effect.Erases (s.readFilesTraced store predicate columns process entries)
      ((entries.filter fun e => predicate.all (shouldScanFile e.stats)).mapM
        (s.readSurvivingFile store columns process)) := by
  induction entries with
  | nil => exact .pure _
  | cons entry rest ih =>
    rw [readFilesTraced]
    split
    · rename_i hscan
      rw [List.filter_cons, if_pos hscan, List.mapM_cons]
      exact .record_bind (.bind (.lift _) fun a => .bind ih fun as => .pure _)
    · rename_i hskip
      rw [List.filter_cons, if_neg hskip]
      exact ih

theorem readSurvivingFilesTraced_erases :
    Effect.Erases (s.readSurvivingFilesTraced store predicate columns process)
      (engine (s.readSurvivingFiles store predicate columns process)) :=
  .mapError (.record_bind (readFilesTraced_erases _)) _

variable {trace trace' : Trace} {xs : List α}

/-- A loop that ran to its end has opened every file that was not ruled out. -/
theorem readFilesTraced_trace {entries : List DataFileEntry}
    (h : s.readFilesTraced store predicate columns process entries trace = (.ok xs, trace')) :
    trace' = { trace with files := trace.files ++
      (entries.filter fun e => predicate.all (shouldScanFile e.stats)).map (·.name) } := by
  induction entries generalizing trace xs with
  | nil =>
    cases h
    simp
  | cons entry rest ih =>
    rw [readFilesTraced] at h
    split at h
    · rename_i hscan
      simp only [Effect.record_bind_apply, Effect.bind_eq_ok, Effect.lift_apply,
        Effect.pure_apply, Prod.mk.injEq] at h
      obtain ⟨_, _, ⟨-, rfl⟩, _, _, hrest, -, rfl⟩ := h
      rw [ih hrest, List.filter_cons, if_pos hscan, List.map_cons, List.append_assoc,
        List.singleton_append]
    · rename_i hskip
      rw [ih h, List.filter_cons, if_neg hskip]

theorem readSurvivingFilesTraced_trace
    (h : s.readSurvivingFilesTraced store predicate columns process trace = (.ok xs, trace')) :
    trace' = ⟨predicate, trace.files ++
      (s.manifest.dataFiles.filter fun e => predicate.all (shouldScanFile e.stats)).map
        DataFileEntry.name, trace.segments⟩ :=
  readFilesTraced_trace (Effect.mapError_eq_ok.mp h)

end

theorem scanQueryTraced_erases (request : ScanRequest) :
    Effect.Erases (s.scanQueryTraced P store request) (s.scanQuery P store request) :=
  .bind (.lift _) fun _ => .bind (.lift _) fun _ => .bind (.lift _) fun _ =>
    .bind readSurvivingFilesTraced_erases fun _ => .pure _

theorem groupByQueryTraced_erases (F : FloatOps) (request : GroupByRequest) :
    Effect.Erases (s.groupByQueryTraced P store F request) (s.groupByQuery P F store request) :=
  .bind (.lift _) fun _ => .bind (.lift _) fun _ => .bind (.lift _) fun _ =>
    .bind readSurvivingFilesTraced_erases fun _ => .bind (.lift _) fun _ =>
      .bind (.lift _) fun _ => .lift _

theorem vectorFilterLiveSetTraced_erases (filter : FilterExpression) :
    Effect.Erases (s.vectorFilterLiveSetTraced P store filter)
      (s.vectorFilterLiveSet P store filter) :=
  .bind (.lift _) fun _ => .bind readSurvivingFilesTraced_erases fun _ => .pure _

end Snapshot

section

variable {ζ : Type} {D : Distances} {query : Vector} {k ef : ℕ} {filter : ℕ → Bool}
  {shouldScan : ζ → Bool}

variable (parts : List (SegmentPart ζ)) {n : ℕ}

theorem considerPartsTraced_erases (n : ℕ) (selected : TopKSelector) :
    (considerPartsTraced D query k ef filter shouldScan parts n selected).map Prod.fst =
      considerParts D query k ef filter shouldScan parts selected := by
  induction parts generalizing n selected with
  | nil => rfl
  | cons part rest ih =>
    rw [considerPartsTraced, considerParts]
    split
    · cases kNnSearch D.metric D.heaps part.1.source query filter k ef with
      | none => rfl
      | some outcome =>
        cases outcome with
        | error e => rfl
        | ok raw => exact ih _ _
    · exact ih _ _

/-- A loop that ran to its end has searched every part that was not ruled out. -/
theorem considerPartsTraced_count {parts : List (SegmentPart ζ)} {n' : ℕ}
    {selected selected' : TopKSelector}
    (h : considerPartsTraced D query k ef filter shouldScan parts n selected =
      some (.ok selected', n')) :
    n' = n + parts.countP fun part => shouldScan part.2 := by
  induction parts generalizing n selected with
  | nil =>
    cases h
    rfl
  | cons part rest ih =>
    rw [considerPartsTraced] at h
    rw [List.countP_cons]
    split at h
    · rename_i hscan
      rw [if_pos hscan]
      cases hsearch : kNnSearch D.metric D.heaps part.1.source query filter k ef with
      | none =>
        simp only [hsearch] at h
        cases h
      | some outcome =>
        cases outcome with
        | error e =>
          simp only [hsearch] at h
          cases h
        | ok raw =>
          simp only [hsearch] at h
          rw [ih h]
          omega
    · rename_i hskip
      rw [if_neg hskip, ih h, Nat.add_zero]

theorem fanOutTraced_erases :
    (fanOutTraced D query k ef filter shouldScan parts).map Prod.fst =
      fanOut D query k ef filter shouldScan parts := by
  rw [fanOutTraced, fanOut, ← considerPartsTraced_erases parts 0, Option.map_map, Option.map_map]
  rfl

theorem fanOutTraced_count {parts : List (SegmentPart ζ)} {found : List VectorMatch}
    (h : fanOutTraced D query k ef filter shouldScan parts = some (.ok found, n)) :
    n = parts.countP fun part => shouldScan part.2 := by
  obtain ⟨⟨selected, n'⟩, hparts, heq⟩ := Option.map_eq_some_iff.mp h
  obtain ⟨hselected, rfl⟩ := Prod.mk.inj heq
  cases selected with
  | error e => cases hselected
  | ok selected => rw [considerPartsTraced_count hparts, Nat.zero_add]

end

namespace Snapshot

variable {D : Distances} {request : VectorSearchRequest}

theorem vectorMatchesTraced_erases :
    (s.vectorMatchesTraced P store D request none).map Prod.fst =
      s.vectorMatches P D store request zoneMapPermits := by
  unfold vectorMatchesTraced vectorMatches
  cases request.filter with
  | none =>
    dsimp only
    rw [← fanOutTraced_erases, Option.map_map, Option.map_map]
    rfl
  | some filter =>
    dsimp only [resolveFilterLiveSetTraced]
    rw [← vectorFilterLiveSetTraced_erases filter .empty]
    rcases s.vectorFilterLiveSetTraced P store filter .empty with ⟨_ | live, trace⟩
    · rfl
    · dsimp only
      rw [← fanOutTraced_erases, Option.map_map, Option.map_map]
      rfl

theorem vectorSearchQueryTraced_erases :
    (s.vectorSearchQueryTraced P store D request none).map Prod.fst =
      s.vectorSearchQuery P D store request := by
  unfold vectorSearchQueryTraced vectorSearchQuery vectorSearchWith
  rw [← vectorMatchesTraced_erases]
  generalize (s.querySchema >>= fun schema => schema.validateVectorSearch request) = validated
  cases validated with
  | error e => rfl
  | ok projection =>
    dsimp only
    rw [Option.map_map, Option.map_map]
    rfl

end Snapshot

/-! ### Plans -/

/-- The filter gives a predicate to hold against zone maps. -/
def pruningPredicate (filter : Option FilterExpression) : Option Predicate :=
  filter.bind filterExpressionPruningPredicate

section

variable {filter : Option FilterExpression} {result : LogicalOperator}

theorem resultOperator_logicalOperators (h : result.isResult = true) :
    resultOperator (logicalOperators filter result) = some result := by
  cases filter <;> cases result <;> first | rfl | cases h

theorem logicalPlan_new (h : result.isResult = true) : ∃ logical,
    LogicalPlan.new (logicalOperators filter result) = .ok logical ∧
      logical.operators = logicalOperators filter result := by
  have hsupported : supportedOrder (logicalOperators filter result) = true := by
    cases filter <;> cases result <;> first | rfl | cases h
  have hends : (logicalOperators filter result).head? = some .source ∧
      (logicalOperators filter result).getLast? = some .materialize := by
    cases filter <;> exact ⟨rfl, rfl⟩
  have hcount : (logicalOperators filter result).countP LogicalOperator.isResult = 1 := by
    cases filter <;> cases result <;> first | rfl | cases h
  refine ⟨⟨_, hsupported⟩, ?_, rfl⟩
  rw [LogicalPlan.new, ensure_of _ hends, ok_bind, ensure_of _ hcount, ok_bind,
    dif_pos hsupported]
  rfl

theorem zoneMapEligible_logicalOperators (h : result.isResult = true) :
    (logicalOperators filter result).any (· = .predicate true) =
      (pruningPredicate filter).isSome := by
  have hne : result ≠ .predicate true := by
    rintro rfl
    cases h
  cases filter <;> simp [logicalOperators, pruningPredicate, hne]

theorem Snapshot.planQuery_eq_ok (h : result.isResult = true) (overlay : Bool) :
    ∃ hasPredicate operators,
      physicalOperators overlay (pruningPredicate filter).isSome hasPredicate result =
        .ok operators ∧
      s.planQuery (logicalOperators filter result) filter overlay =
        .ok ⟨logicalOperators filter result, operators ++ [.materialize],
          (s.planObservations (logicalOperators filter result) filter overlay).observed⟩ := by
  obtain ⟨logical, hnew, hlogical⟩ := @logicalPlan_new filter result h
  obtain ⟨operators, hoperators⟩ : ∃ operators,
      physicalOperators overlay (pruningPredicate filter).isSome
        ((logicalOperators filter result).any LogicalOperator.isPredicate) result =
          .ok operators := by
    cases result <;> first | exact ⟨_, rfl⟩ | cases h
  have hoverlay : (s.planObservations (logicalOperators filter result) filter
      overlay).observed.transactionOverlay = overlay := by
    unfold PlanObservations.observed
    split <;> rfl
  refine ⟨_, operators, hoperators, ?_⟩
  rw [planQuery, hnew]
  simp only [Except.mapError, ok_bind, plan, hlogical, resultOperator_logicalOperators h,
    Lib.orElse, zoneMapEligible_logicalOperators h, hoverlay]
  rw [hoperators]
  rfl

end

/-! ### What a plan counts -/

namespace Snapshot

variable (s) (filter : Option FilterExpression)

/-- The files that the filter of a request does not rule out. -/
def filesLeft : List DataFileEntry :=
  s.manifest.dataFiles.filter fun e => (pruningPredicate filter).all (shouldScanFile e.stats)

/-- The segments that the filter of a request does not rule out. -/
def segmentsLeft : List SegmentEntry :=
  s.manifest.segments.filter fun e => (pruningPredicate filter).all (shouldScanFile e.zoneMap)

/-- The number of files a plan with a filter scans and skips. -/
theorem dataFileSelection_eq :
    ((filter.bind filterExpressionPruningPredicate).map s.explain).elim
        (s.manifest.dataFiles.length, 0) (fun e => (e.scanned.length, e.skipped.length)) =
      ((s.filesLeft filter).length, s.manifest.dataFiles.length - (s.filesLeft filter).length) := by
  rw [filesLeft, pruningPredicate]
  cases filter.bind filterExpressionPruningPredicate with
  | none => simp
  | some predicate =>
    have hsplit := List.length_eq_length_filter_add (l := s.manifest.dataFiles)
      fun e => shouldScanFile e.stats predicate
    simp only [Option.map_some, Option.elim_some, explain, List.length_map, Option.all_some]
    rw [hsplit, Nat.add_sub_cancel_left]

theorem indexSegmentSelection_eq :
    ((filter.bind filterExpressionPruningPredicate).map s.explain).elim
        (s.manifest.segments.length, 0)
        (fun e => (e.segmentsScanned.length, e.segmentsSkipped.length)) =
      ((s.segmentsLeft filter).length,
        s.manifest.segments.length - (s.segmentsLeft filter).length) := by
  rw [segmentsLeft, pruningPredicate]
  cases filter.bind filterExpressionPruningPredicate with
  | none => simp
  | some predicate =>
    have hsplit := List.length_eq_length_filter_add (l := s.manifest.segments)
      fun e => shouldScanFile e.zoneMap predicate
    simp only [Option.map_some, Option.elim_some, explain, List.length_map, Option.all_some]
    rw [hsplit, Nat.add_sub_cancel_left]

end Snapshot

/-- The plan of rows for a request. -/
structure RowPlan (s : Snapshot) (filter : Option FilterExpression) (plan : PhysicalPlan) :
    Prop where
  total : plan.observations.dataFilesTotal = s.manifest.dataFiles.length
  scanned : plan.observations.dataFilesScanned = (s.filesLeft filter).length
  pruned : plan.observations.dataFilesScanned + plan.observations.dataFilesPruned =
    plan.observations.dataFilesTotal
  segments : plan.observations.indexSegmentsScanned = 0
  pruning : .zoneMapPruning ∈ plan.physicalOperators ↔ (pruningPredicate filter).isSome = true

/-- A plan under a transaction's overlay. -/
structure OverlayPlan (s : Snapshot) (plan : PhysicalPlan) : Prop where
  total : plan.observations.dataFilesTotal = s.manifest.dataFiles.length
  scanned : plan.observations.dataFilesScanned = plan.observations.dataFilesTotal
  pruned : plan.observations.dataFilesPruned = 0

section

variable {filter : Option FilterExpression} {result : LogicalOperator}

/-- The result operators over rows. -/
def overRows : LogicalOperator → Bool
  | .projection _ | .grouping _ _ => true
  | _ => false

theorem isResult_of_overRows (h : overRows result = true) : result.isResult = true := by
  cases result <;> first | rfl | cases h

theorem Snapshot.planObservations_rows (h : overRows result = true) :
    (s.planObservations (logicalOperators filter result) filter false).observed =
      ⟨s.manifest.dataFiles.length, (s.filesLeft filter).length,
        s.manifest.dataFiles.length - (s.filesLeft filter).length,
        s.manifest.segments.length, 0, 0, false⟩ := by
  have hresult := @resultOperator_logicalOperators filter result (isResult_of_overRows h)
  cases result with
  | projection _ | grouping _ _ =>
    simp only [planObservations, hresult, dataFileSelection_eq, PlanObservations.observed]
    rfl
  | _ => cases h

variable {hasPredicate eligible : Bool} {operators : List PhysicalOperator}

theorem zoneMapPruning_mem_rows (h : overRows result = true)
    (hoperators : physicalOperators false eligible hasPredicate result = .ok operators) :
    .zoneMapPruning ∈ operators ++ [.materialize] ↔ eligible = true := by
  cases result with
  | projection _ | grouping _ _ =>
    cases hoperators
    cases eligible <;> cases hasPredicate <;> decide
  | _ => cases h

theorem Snapshot.planQuery_rows (h : overRows result = true) :
    ∃ plan, s.planQuery (logicalOperators filter result) filter false = .ok plan ∧
      RowPlan s filter plan := by
  obtain ⟨hasPredicate, operators, hoperators, hplan⟩ :=
    @planQuery_eq_ok s filter result (isResult_of_overRows h) false
  have hle : (s.filesLeft filter).length ≤ s.manifest.dataFiles.length :=
    List.length_filter_le _ _
  rw [planObservations_rows h] at hplan
  exact ⟨_, hplan, rfl, rfl, Nat.add_sub_cancel' hle, rfl, zoneMapPruning_mem_rows h hoperators⟩

theorem Snapshot.planQuery_overlay (h : result.isResult = true) :
    ∃ plan, s.planQuery (logicalOperators filter result) filter true = .ok plan ∧
      OverlayPlan s plan := by
  obtain ⟨-, operators, -, hplan⟩ := @planQuery_eq_ok s filter result h true
  exact ⟨_, hplan, rfl, rfl, rfl⟩

/-- The plan of a vector search. -/
structure VectorPlan (s : Snapshot) (filter : Option FilterExpression) (plan : PhysicalPlan) :
    Prop where
  scanned : plan.observations.dataFilesScanned =
    if filter.isSome then (s.filesLeft filter).length else 0
  segments : plan.observations.indexSegmentsScanned = (s.segmentsLeft filter).length
  pruning : .zoneMapPruning ∈ plan.physicalOperators ↔ (pruningPredicate filter).isSome = true

theorem zoneMapPruning_mem_vector {hasFilter hydration : Bool} {column : String} {k : ℕ}
    (hoperators : physicalOperators false eligible hasPredicate
      (.vectorSearch column k hasFilter hydration) = .ok operators) :
    .zoneMapPruning ∈ operators ++ [.materialize] ↔ hasFilter = true ∧ eligible = true := by
  cases hoperators
  cases eligible <;> cases hasFilter <;> cases hydration <;> decide

theorem Snapshot.planQuery_vector {column : String} {k : ℕ} {hydration : Bool} :
    ∃ plan, s.planQuery (logicalOperators filter
        (.vectorSearch column k filter.isSome hydration)) filter false = .ok plan ∧
      VectorPlan s filter plan := by
  obtain ⟨hasPredicate, operators, hoperators, hplan⟩ := @planQuery_eq_ok s filter
    (.vectorSearch column k filter.isSome hydration) rfl false
  have hresult := @resultOperator_logicalOperators filter
    (.vectorSearch column k filter.isSome hydration) rfl
  refine ⟨_, hplan, ?_, ?_, ?_⟩
  · simp only [planObservations, hresult, dataFileSelection_eq, PlanObservations.observed]
    cases filter <;> rfl
  · simp only [planObservations, hresult, indexSegmentSelection_eq, PlanObservations.observed]
    rfl
  · rw [zoneMapPruning_mem_vector hoperators, and_iff_right_of_imp]
    cases filter with
    | none => exact id
    | some filter => exact fun _ => rfl

end

/-! ### Plans and executions -/

/-- What a plan says of an execution's record. -/
structure Matches (plan : PhysicalPlan) (trace : Trace) : Prop where
  segments : plan.observations.indexSegmentsScanned = trace.segments
  pruning : .zoneMapPruning ∈ plan.physicalOperators ↔ trace.pruning.isSome = true

namespace Snapshot

variable {trace : Trace} {cat : Catalog} {D : Distances} {request : VectorSearchRequest}
  {cached : Option LiveSet}

theorem scanQueryTraced_trace {request : ScanRequest} {result : ScanResult}
    (h : s.scanQueryTraced P store request .empty = (.ok result, trace)) :
    trace = ⟨pruningPredicate request.filter,
      (s.filesLeft request.filter).map DataFileEntry.name, 0⟩ := by
  simp only [scanQueryTraced, Effect.bind_eq_ok, Effect.lift_apply, Effect.pure_apply,
    Prod.mk.injEq] at h
  obtain ⟨_, _, ⟨-, rfl⟩, _, _, ⟨-, rfl⟩, _, _, ⟨-, rfl⟩, _, _, hread, -, rfl⟩ := h
  exact readSurvivingFilesTraced_trace hread

theorem groupByQueryTraced_trace {F : FloatOps} {request : GroupByRequest} {result : GroupByResult}
    (h : s.groupByQueryTraced P store F request .empty = (.ok result, trace)) :
    trace = ⟨pruningPredicate request.filter,
      (s.filesLeft request.filter).map DataFileEntry.name, 0⟩ := by
  simp only [groupByQueryTraced, Effect.bind_eq_ok, Effect.lift_apply, Prod.mk.injEq] at h
  obtain ⟨_, _, ⟨-, rfl⟩, _, _, ⟨-, rfl⟩, _, _, ⟨-, rfl⟩, _, _, hread, _, _, ⟨-, rfl⟩, _, _,
    ⟨-, rfl⟩, -, rfl⟩ := h
  exact readSurvivingFilesTraced_trace hread

theorem vectorFilterLiveSetTraced_trace {filter : FilterExpression} {live : LiveSet}
    (h : s.vectorFilterLiveSetTraced P store filter .empty = (.ok live, trace)) :
    trace = ⟨pruningPredicate (some filter),
      (s.filesLeft (some filter)).map DataFileEntry.name, 0⟩ := by
  simp only [vectorFilterLiveSetTraced, Effect.bind_eq_ok, Effect.lift_apply, Effect.pure_apply,
    Prod.mk.injEq] at h
  obtain ⟨_, _, ⟨-, rfl⟩, _, _, hread, -, rfl⟩ := h
  exact readSurvivingFilesTraced_trace hread

/-- The index parts that are searched are those of the segments left. -/
theorem Valid.countP_index (hv : s.Valid P cat) (permits : Stats → Bool) :
    s.index.countP (fun part => permits part.2) =
      (s.manifest.segments.filter fun e => permits e.zoneMap).length := by
  rw [hv.index_eq, hv.segments_eq, Catalog.parts, List.countP_map, ← List.countP_eq_length_filter,
    List.countP_map]
  rfl

theorem vectorMatchesTraced_trace (hv : s.Valid P cat) {found : List VectorMatch}
    (h : s.vectorMatchesTraced P store D request cached = some (.ok found, trace)) :
    trace.pruning = pruningPredicate request.filter ∧
      trace.segments = (s.segmentsLeft request.filter).length ∧
      (cached = none → trace.files.length =
        if request.filter.isSome then (s.filesLeft request.filter).length else 0) := by
  unfold vectorMatchesTraced at h
  split at h
  · rename_i filter hfilter
    rw [hfilter]
    rcases hlive : s.resolveFilterLiveSetTraced P store cached filter .empty with ⟨_ | live, read⟩
    · simp only [hlive] at h
      cases h
    · simp only [hlive] at h
      obtain ⟨⟨outcome, segments⟩, hfan, heq⟩ := Option.map_eq_some_iff.mp h
      obtain ⟨hfound, rfl⟩ := Prod.mk.inj heq
      rw [engine_eq_ok, lift_eq_ok] at hfound
      subst hfound
      refine ⟨rfl, ?_, ?_⟩
      · exact (fanOutTraced_count hfan).trans (hv.countP_index _)
      · rintro rfl
        rw [vectorFilterLiveSetTraced_trace hlive]
        exact List.length_map _
  · rename_i hfilter
    rw [hfilter]
    obtain ⟨⟨outcome, segments⟩, hfan, heq⟩ := Option.map_eq_some_iff.mp h
    obtain ⟨hfound, rfl⟩ := Prod.mk.inj heq
    rw [engine_eq_ok, lift_eq_ok] at hfound
    subst hfound
    exact ⟨rfl, (fanOutTraced_count hfan).trans (hv.countP_index fun _ => true), fun _ => rfl⟩

theorem vectorSearchQueryTraced_trace (hv : s.Valid P cat) {result : VectorSearchResult}
    (h : s.vectorSearchQueryTraced P store D request cached = some (.ok result, trace)) :
    trace.pruning = pruningPredicate request.filter ∧
      trace.segments = (s.segmentsLeft request.filter).length ∧
      (cached = none → trace.files.length =
        if request.filter.isSome then (s.filesLeft request.filter).length else 0) := by
  unfold vectorSearchQueryTraced at h
  split at h
  · cases h
  · obtain ⟨⟨found, read⟩, hmatches, heq⟩ := Option.map_eq_some_iff.mp h
    obtain ⟨hhits, rfl⟩ := Prod.mk.inj heq
    obtain ⟨found', rfl, -⟩ := bind_eq_ok.mp hhits
    exact vectorMatchesTraced_trace hv hmatches

end Snapshot

/-- For every snapshot in use and every valid request, the plan counts what the execution
reads; a transaction's plans have every file read. -/
theorem explain_matches_execution {sys : System} (hreach : (system P).Reachable sys) :
    (∀ b ∈ sys.dataset.current :: sys.held, ∀ store,
      (∀ q request projection, b.querySchema = .ok q → q.validateScan request = .ok projection →
        ∃ plan, b.explainScanQuery request = .ok plan ∧
          plan.observations.dataFilesTotal = b.manifest.dataFiles.length ∧
          plan.observations.dataFilesScanned + plan.observations.dataFilesPruned =
            plan.observations.dataFilesTotal ∧
          (b.scanQueryTraced P store request .empty).1 = b.scanQuery P store request ∧
          ∀ result trace, b.scanQueryTraced P store request .empty = (.ok result, trace) →
            plan.observations.dataFilesScanned = trace.files.length ∧ Matches plan trace) ∧
      (∀ F q request outputs, b.querySchema = .ok q → q.validateGroupBy request = .ok outputs →
        ∃ plan, b.explainGroupByQuery request = .ok plan ∧
          plan.observations.dataFilesTotal = b.manifest.dataFiles.length ∧
          plan.observations.dataFilesScanned + plan.observations.dataFilesPruned =
            plan.observations.dataFilesTotal ∧
          (b.groupByQueryTraced P store F request .empty).1 = b.groupByQuery P F store request ∧
          ∀ result trace, b.groupByQueryTraced P store F request .empty = (.ok result, trace) →
            plan.observations.dataFilesScanned = trace.files.length ∧ Matches plan trace) ∧
      ∀ D q request hydration, b.querySchema = .ok q →
        q.validateVectorSearch request = .ok hydration →
        ∃ plan, b.explainVectorSearchQuery request = .ok plan ∧
          (b.vectorSearchQueryTraced P store D request none).map Prod.fst =
            b.vectorSearchQuery P D store request ∧
          ∀ cached result trace,
            b.vectorSearchQueryTraced P store D request cached = some (.ok result, trace) →
            (cached = none → plan.observations.dataFilesScanned = trace.files.length) ∧
              Matches plan trace) ∧
    ∀ (t : Transaction) q, t.base.querySchema = .ok q →
      (∀ request projection, q.validateScan request = .ok projection →
        ∃ plan, t.explainScanQuery request = .ok plan ∧ OverlayPlan t.base plan) ∧
      ∀ request outputs, q.validateGroupBy request = .ok outputs →
        ∃ plan, t.explainGroupByQuery request = .ok plan ∧ OverlayPlan t.base plan := by
  constructor
  · intro b hb store
    obtain ⟨cat, hv, -⟩ := (System.inv_of_reachable hreach).snapshot_valid hb
    refine ⟨?_, ?_, ?_⟩
    · intro q request projection hq hval
      obtain ⟨plan, hplan, hrows⟩ :=
        @Snapshot.planQuery_rows b request.filter (.projection projection) rfl
      refine ⟨plan, ?_, hrows.total, hrows.pruned, b.scanQueryTraced_erases request .empty, ?_⟩
      · rw [Snapshot.explainScanQuery, Snapshot.explainScanQueryWithOverlay, hq, ok_bind, hval]
        exact hplan
      · intro result trace htrace
        rw [Snapshot.scanQueryTraced_trace htrace]
        refine ⟨?_, hrows.segments, hrows.pruning⟩
        rw [hrows.scanned, List.length_map]
    · intro F q request outputs hq hval
      obtain ⟨plan, hplan, hrows⟩ := @Snapshot.planQuery_rows b request.filter
        (.grouping request.groupBy request.aggregates.length) rfl
      refine ⟨plan, ?_, hrows.total, hrows.pruned, b.groupByQueryTraced_erases F request .empty, ?_⟩
      · rw [Snapshot.explainGroupByQuery, Snapshot.explainGroupByQueryWithOverlay, hq, ok_bind,
          hval]
        exact hplan
      · intro result trace htrace
        rw [Snapshot.groupByQueryTraced_trace htrace]
        refine ⟨?_, hrows.segments, hrows.pruning⟩
        rw [hrows.scanned, List.length_map]
    · intro D q request hydration hq hval
      obtain ⟨plan, hplan, hvector⟩ := @Snapshot.planQuery_vector b request.filter
        request.vectorColumn request.k hydration.isSome
      refine ⟨plan, ?_, Snapshot.vectorSearchQueryTraced_erases, ?_⟩
      · rw [Snapshot.explainVectorSearchQuery, hq, ok_bind, hval]
        exact hplan
      · intro cached result trace htrace
        obtain ⟨hpruning, hsegments, hfiles⟩ := Snapshot.vectorSearchQueryTraced_trace hv htrace
        refine ⟨fun hmiss => ?_, ?_, ?_⟩
        · rw [hvector.scanned, hfiles hmiss]
        · rw [hvector.segments, hsegments]
        · rw [hvector.pruning, hpruning]
  · intro t q hq
    constructor
    · intro request projection hval
      obtain ⟨plan, hplan, hoverlay⟩ :=
        @Snapshot.planQuery_overlay t.base request.filter (.projection projection) rfl
      refine ⟨plan, ?_, hoverlay⟩
      rw [Transaction.explainScanQuery, Snapshot.explainScanQueryWithOverlay, hq, ok_bind, hval]
      exact hplan
    · intro request outputs hval
      obtain ⟨plan, hplan, hoverlay⟩ := @Snapshot.planQuery_overlay t.base request.filter
        (.grouping request.groupBy request.aggregates.length) rfl
      refine ⟨plan, ?_, hoverlay⟩
      rw [Transaction.explainGroupByQuery, Snapshot.explainGroupByQueryWithOverlay, hq, ok_bind,
        hval]
      exact hplan

/-- A search among the rows above 25, of which the first of two files and segments has
none. -/
def aboveSearch : VectorSearchRequest :=
  ⟨vectorColumn, [Binary.zero 8 23], 2, some aboveFilter, .notRequested⟩

theorem explain_matches_execution_twoPoints :
    ∃ s plan result trace, plainRun pointSchema twoPoints = some s ∧
      s.dataset.current.explainVectorSearchQuery aboveSearch = .ok plan ∧
      s.dataset.current.vectorSearchQueryTraced plainPlatform s.dataset.store flatDistances
        aboveSearch none = some (.ok result, trace) ∧
      s.dataset.current.manifest.dataFiles.length = 2 ∧
      plan.observations.dataFilesScanned = 1 ∧ trace.files.length = 1 ∧ trace.segments = 1 ∧
      Matches plan trace := by
  have hrun : (plainRun pointSchema twoPoints).bind (fun s =>
      s.dataset.current.querySchema.toOption.bind fun q =>
      (q.validateVectorSearch aboveSearch).toOption.bind fun _ =>
      (s.dataset.current.vectorSearchQueryTraced plainPlatform s.dataset.store flatDistances
        aboveSearch none).bind fun p => p.1.toOption.map fun _ =>
      (s.dataset.current.manifest.dataFiles.length, p.2.files.length, p.2.segments)) =
      some (2, 1, 1) := by
    decide +kernel
  obtain ⟨s, hs, hrun⟩ := Option.bind_eq_some_iff.mp hrun
  obtain ⟨q, hq, hrun⟩ := Option.bind_eq_some_iff.mp hrun
  obtain ⟨hydration, hval, hrun⟩ := Option.bind_eq_some_iff.mp hrun
  obtain ⟨⟨outcome, trace⟩, htrace, hrun⟩ := Option.bind_eq_some_iff.mp hrun
  obtain ⟨result, hresult, hcounts⟩ := Option.map_eq_some_iff.mp hrun
  obtain ⟨hlength, hfiles, hsegments⟩ : _ = 2 ∧ trace.files.length = 1 ∧ trace.segments = 1 := by
    simpa only [Prod.mk.injEq] using hcounts
  obtain rfl : outcome = .ok result := toOption_eq_some.mp hresult
  obtain ⟨plan, hplan, -, hmatches⟩ := ((explain_matches_execution (reachable_runOn hs)).1 _
    List.mem_cons_self s.dataset.store).2.2 flatDistances q aboveSearch hydration
    (toOption_eq_some.mp hq) (toOption_eq_some.mp hval)
  obtain ⟨hmiss, hplanned⟩ := hmatches none result trace htrace
  exact ⟨s, plan, result, trace, hs, hplan, htrace, hlength, (hmiss rfl).trans hfiles, hfiles,
    hsegments, hplanned⟩

end StrataDB.Txn
