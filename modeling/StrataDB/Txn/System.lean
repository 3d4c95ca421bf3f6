import StrataDB.Lib.Transition
import StrataDB.Txn.Compaction
import StrataDB.Txn.Ledger
import StrataDB.Txn.Retention

/-! One handle under any interleaving of its users. A commit holds a preparation
lease from its start to its end; compaction, migration, pruning and vacuum run
alone, after every admitted preparation has ended, but snapshots are taken and
dropped at any time; `maintain` is a compaction, a prune by age and a vacuum, with
anything in between. What happens under the publication lock is one step; the
parts of a preparation and every single deletion are steps of their own. -/

namespace StrataDB.Txn

open Lib Arrow Index Storage

/-- How far a transaction has come. The stages between `staging` and `finished`
are those of one `commit` call. -/
inductive Stage
  | staging
  | started (ts : ℤ)
  | numbered (ts : ℤ) (attempt : ℕ)
  | claimed (ts : ℤ) (attempt : ℕ) (range : RowIdRange)
  | written (ts : ℤ) (attempt : ℕ) (range : RowIdRange) (files : WrittenFiles)
  /-- Nothing was claimed for a transaction without batches. -/
  | prepared (ts : ℤ) (claim : Option (ℕ × RowIdRange)) (files : List DataFileEntry)
      (segment : Option PublishedSegment)
  | finished (outcome : Except TxnError Unit)
  | dropped

namespace Stage

/-- The attempt id in use. -/
def attempt? : Stage → Option ℕ
  | .numbered _ attempt => some attempt
  | .claimed _ attempt _ => some attempt
  | .written _ attempt _ _ => some attempt
  | .prepared _ claim _ _ => claim.map Prod.fst
  | _ => none

/-- The row ids in use. -/
def range? : Stage → Option RowIdRange
  | .claimed _ _ range => some range
  | .written _ _ range _ => some range
  | .prepared _ claim _ _ => claim.map Prod.snd
  | _ => none

/-- The preparation lease is held. -/
def preparing : Stage → Bool
  | .staging | .finished _ | .dropped => false
  | _ => true

/-- The transaction still holds its base snapshot. -/
def alive : Stage → Bool
  | .finished _ | .dropped => false
  | _ => true

end Stage

/-- The first row id of a preparation. -/
def rowIdBase (claim : Option (ℕ × RowIdRange)) : ℕ := claim.elim 0 fun c => c.2.base

structure TxnState where
  txn : Transaction
  stage : Stage

/-- The lifecycle operation in progress. -/
inductive Executor
  | idle
  /-- A compaction has published and not yet planned its reclamation. -/
  | compacted
  /-- Objects still to be deleted. -/
  | deleting (remaining : List Candidate)

def Executor.isIdle : Executor → Bool
  | .idle => true
  | _ => false

/-- The handle, its transactions by number, the snapshots its users hold, and the
record of all publications; `openedAt` is the length of that record when the
handle was made. -/
structure System where
  dataset : Dataset
  txns : List TxnState
  holders : List Snapshot
  executor : Executor
  history : List Publication
  openedAt : ℕ

namespace System

/-- The snapshots held by users and transactions. -/
def held (s : System) : List Snapshot :=
  s.holders ++ (s.txns.filter fun t => t.stage.alive).map fun t => t.txn.base

/-- The versions whose leases are live. -/
def live (s : System) : List ℕ := liveVersions s.dataset.current s.held

/-- No commit holds a preparation lease and no lifecycle operation is running. -/
def quiet (s : System) : Bool :=
  s.executor.isIdle && s.txns.all fun t => !t.stage.preparing

def setTxn (s : System) (id : ℕ) (t : TxnState) : System :=
  { s with txns := s.txns.set id t }

/-- The record after an action that may have published. -/
def record (s : System) (d : Dataset) (event : Event) : List Publication :=
  if d.current.version = s.dataset.current.version then s.history
  else s.history ++ [⟨event, d.current, d.store⟩]

end System

/-- A step of some user. Clock readings and storage faults are part of it. -/
inductive Label
  | begin
  | insert (id : ℕ) (batch : RecordBatch)
  | delete (id rowId : ℕ)
  | update (id rowId : ℕ) (batch : RecordBatch)
  | rollback (id : ℕ)
  | start (id : ℕ) (clock : Option ℕ)
  | number (id : ℕ) (faults : WriteFaults)
  | claim (id : ℕ) (faults : ℕ → ReservationFaults)
  | write (id : ℕ) (faults : WriteFaults)
  | index (id : ℕ) (faults : WriteFaults)
  | publish (id : ℕ) (fault : Fault)
  | acquire
  | clone (holder : ℕ)
  | drop (holder : ℕ)
  | compact (clock : Option ℕ) (faults : CompactionFaults)
  | reclaim
  | prune (keep : ℕ)
  | pruneByAge (keep maxAgeUs : ℕ) (clock : Option ℕ)
  | vacuum
  | deleteNext (fault : Fault)
  | abort
  | migrate (migration : SchemaMigration) (clock : Option ℕ) (faults : MigrationFaults)
  | reopen

/-- Stage one more operation of a transaction; a refused one changes nothing. -/
def stageStep (s : System) (id : ℕ) (op : Transaction → Except TxnError Transaction) :
    Option System :=
  match s.txns[id]? with
  | some ⟨txn, .staging⟩ =>
    match op txn with
    | .ok txn' => some (s.setTxn id ⟨txn', .staging⟩)
    | .error _ => some s
  | _ => none

/-- Run a part of a commit: a failure ends the commit with its error. -/
def commitStep {α : Type} (s : System) (id : ℕ) (txn : Transaction) (action : Action α)
    (next : α → Stage) : System :=
  match action s.dataset with
  | (.ok a, d) => { s with dataset := d, txns := s.txns.set id ⟨txn, next a⟩ }
  | (.error e, d) => { s with dataset := d, txns := s.txns.set id ⟨txn, .finished (.error e)⟩ }

/-- The parts of `commit_inner` in order. -/
def commitPart (P : Platform) (s : System) (id : ℕ) : Label → Option System
  | .start _ clock =>
    match s.txns[id]? with
    | some ⟨txn, .staging⟩ =>
      if s.executor.isIdle then some (commitStep s id txn (issueTimestamp clock) .started)
      else none
    | _ => none
  | .number _ faults =>
    match s.txns[id]? with
    | some ⟨txn, .started ts⟩ =>
      if txn.pending = [] then
        some (s.setTxn id ⟨txn, .prepared ts none [] none⟩)
      else some (commitStep s id txn (takeAttempt txn faults) (.numbered ts))
    | _ => none
  | .claim _ faults =>
    match s.txns[id]? with
    | some ⟨txn, .numbered ts attempt⟩ =>
      some (commitStep s id txn (claimForPending txn faults) (.claimed ts attempt))
    | _ => none
  | .write _ faults =>
    match s.txns[id]? with
    | some ⟨txn, .claimed ts attempt range⟩ =>
      some (commitStep s id txn (writePendingBatches P txn.pending attempt range ts faults.files)
        (.written ts attempt range))
    | _ => none
  | .index _ faults =>
    match s.txns[id]? with
    | some ⟨txn, .written ts attempt range files⟩ =>
      some (commitStep s id txn (indexWritten P attempt files faults)
        (.prepared ts (some (attempt, range)) files.files))
    | _ => none
  | .publish _ fault =>
    match s.txns[id]? with
    | some ⟨txn, .prepared ts claim files segment⟩ =>
      let (result, d) := publishCommit P txn ts files segment fault s.dataset
      some { s with
        dataset := d
        txns := s.txns.set id ⟨txn, .finished result⟩
        history := s.record d
          (.commit id txn.base.version txn.writeSet txn.pending (rowIdBase claim) ts) }
    | _ => none
  | _ => none

/-- A plan made under lifecycle exclusivity: its deletions follow one by one. -/
def planStep (s : System) (plan : Except TxnError (List Candidate)) : System :=
  match plan with
  | .ok candidates => { s with executor := .deleting candidates }
  | .error _ => { s with executor := .idle }

/-- The versions to prune, once their listed bytes have been added up. -/
def prunePlan (P : Platform) (store : Store) (versions : Except TxnError (List ℕ)) :
    Except TxnError (List Candidate) := do
  let versions ← versions
  let _ ← totalManifestBytes P store 0 versions
  return versions.map fun version => .ok (.manifest version, sizeOf P store (.manifest version))

/-- The lifecycle operations. -/
def lifecycleStep (P : Platform) (s : System) : Label → Option System
  | .compact clock faults =>
    if s.quiet then
      let (result, d) := publishCompaction P clock faults s.dataset
      some { s with
        dataset := d
        executor := if result.isOk then .compacted else .idle
        history := s.record d .compaction }
    else none
  | .reclaim =>
    match s.executor with
    | .compacted =>
      some (planStep s (reclaimPlan P s.dataset.current.schema s.live s.dataset.store))
    | _ => none
  | .prune keep =>
    if s.quiet then
      some (planStep s (prunePlan P s.dataset.store
        (buildManifestPruneAuthority P keep s.dataset.current s.held s.dataset.store)))
    else none
  | .pruneByAge keep maxAgeUs clock =>
    if s.quiet then
      some (planStep s (prunePlan P s.dataset.store (buildAgeManifestPruneAuthority P keep
        maxAgeUs clock s.dataset.current s.held s.dataset.store)))
    else none
  | .vacuum =>
    if s.quiet then
      some (planStep s (vacuumPlan P s.dataset.current s.held s.dataset.store))
    else none
  | .deleteNext fault =>
    match s.executor with
    | .deleting [] => some { s with executor := .idle }
    | .deleting (.error _ :: _) => some { s with executor := .idle }
    | .deleting (.ok (key, _) :: rest) =>
      let (result, d) := deleteObject key fault s.dataset
      some { s with
        dataset := d
        executor := if result.isOk then .deleting rest else .idle }
    | _ => none
  | .abort => if s.executor.isIdle then none else some { s with executor := .idle }
  | .migrate migration clock faults =>
    if s.quiet then
      let (_, d) := migrateSchema P migration clock faults s.dataset
      some { s with
        dataset := d
        history := s.record d (.migration (migration.addedNullableColumn.getD rowIdField)) }
    else none
  | _ => none

/-- The handle is lost, at any moment, and the dataset opened again. -/
def reopenStep (P : Platform) (s : System) : Option System :=
  match openDataset P s.dataset.store with
  | .ok d =>
    some { s with
      dataset := d
      txns := s.txns.map fun t => if t.stage.alive then ⟨t.txn, .dropped⟩ else t
      holders := []
      executor := .idle
      openedAt := s.history.length }
  | .error _ => none

/-- One step of the system; `none` where the label is not enabled. -/
def systemStep (P : Platform) (s : System) : Label → Option System
  | .begin => some { s with txns := s.txns ++ [⟨Transaction.begin s.dataset, .staging⟩] }
  | .insert id batch => stageStep s id fun t => t.insert batch
  | .delete id rowId => stageStep s id fun t => t.delete rowId
  | .update id rowId batch => stageStep s id fun t => t.update rowId batch
  | .rollback id =>
    match s.txns[id]? with
    | some ⟨txn, .staging⟩ => some (s.setTxn id ⟨txn, .dropped⟩)
    | _ => none
  | .acquire => some { s with holders := s.holders ++ [s.dataset.current] }
  | .clone holder => s.holders[holder]?.map fun h => { s with holders := s.holders ++ [h] }
  | .drop holder => some { s with holders := s.holders.eraseIdx holder }
  | .reopen => reopenStep P s
  | .start id clock => commitPart P s id (.start id clock)
  | .number id faults => commitPart P s id (.number id faults)
  | .claim id faults => commitPart P s id (.claim id faults)
  | .write id faults => commitPart P s id (.write id faults)
  | .index id faults => commitPart P s id (.index id faults)
  | .publish id fault => commitPart P s id (.publish id fault)
  | label => lifecycleStep P s label

/-- A freshly created handle. -/
def System.created (d : Dataset) : System where
  dataset := d
  txns := []
  holders := []
  executor := .idle
  history := [⟨.created, d.current, d.store⟩]
  openedAt := 1

/-- Runs of one handle from the creation of a dataset on. -/
def system (P : Platform) : TransitionSystem System Label where
  init s := ∃ store schema capacity clock faults store' d,
    createDataset P store schema capacity clock faults = (store', .ok d) ∧ s = System.created d
  step := systemStep P

/-! ### A platform

One that satisfies the assumptions, for runs on concrete inputs: columns are
packed whenever asked, no manifest is too large and all distances are zero. -/

def plainKernels : Kernels where
  cast source target :=
    match source, target with
    | .dictionary _ value, target => if value = target then some id else none
    | source, .dictionary _ value => if value = source then some id else none
    | _, _ => none
  rowConvertible _ := true
  ipcByteLen batch := batch.numRows
  ipcCrc32c _ := 0
  pack_eq key value f h := by cases value <;> simp_all
  unpack_eq key value := by simp

theorem infinity32_fits : Binary.infinity 8 23 < 2 ^ (8 + 23) := by decide

/-- Vectors so small that their squared distances are zero, and the levels that the
counter's hash gives to the first ordinals. -/
def plainBuilder : Builder where
  metric :=
    ⟨fun _ _ => Binary.zero 8 23, ⟨false, Binary.infinity 8 23, infinity32_fits⟩, Binary.lt⟩
  heaps := listHeaps Binary.lt
  relax := id
  level i := if i = 15 ∨ i = 30 then 1 else 0

def plainPlatform : Platform where
  kernels := plainKernels
  format := {
    withinLimits := fun _ => true
    floatRoundTrips := Binary.isFinite
    manifestBytes := fun _ => 0
    isFinite_of_roundTrips := fun _ h => h }
  builder := plainBuilder

/-- A run of the labels on a new dataset with room for four log entries. -/
def runOn (P : Platform) (schema : Schema) (labels : List Label) : Option System :=
  (createDataset P ∅ schema 4 (some 0) {}).2.toOption.bind fun d =>
    (system P).run (System.created d) labels

variable {P : Platform} {schema : Schema} {labels : List Label} {s : System}

theorem runOn_eq_some (h : runOn P schema labels = some s) :
    ∃ s₀, (system P).init s₀ ∧ (system P).run s₀ labels = some s := by
  obtain ⟨d, hd, hrun⟩ := Option.bind_eq_some_iff.mp h
  exact ⟨_, ⟨∅, schema, 4, some 0, {}, _, d, Prod.ext rfl (toOption_eq_some.mp hd), rfl⟩, hrun⟩

theorem reachable_runOn (h : runOn P schema labels = some s) : (system P).Reachable s := by
  obtain ⟨s₀, hinit, hrun⟩ := runOn_eq_some h
  exact TransitionSystem.Reachable.run (.init hinit) hrun

theorem runOn_append (P : Platform) (schema : Schema) (labels more : List Label) :
    runOn P schema (labels ++ more) =
      (runOn P schema labels).bind fun s => (system P).run s more := by
  simp only [runOn, TransitionSystem.run_append, Option.bind_assoc]

abbrev plainRun (schema : Schema) (labels : List Label) : Option System :=
  runOn plainPlatform schema labels

/-- The parts of a commit, none of which fails. -/
def commitLabels (id now : ℕ) : List Label :=
  [.start id (some now), .number id {}, .claim id fun _ => {}, .write id {}, .index id {},
    .publish id .none]

/-- The same for a transaction that only deletes. -/
def commitDeleteLabels (id now : ℕ) : List Label :=
  [.start id (some now), .number id {}, .publish id .none]

/-- The first transaction inserts a batch. -/
def insertLabels (batch : RecordBatch) : List Label :=
  [.begin, .insert 0 batch] ++ commitLabels 0 1

/-- The rows that fit the schema as a batch. -/
def batchOf (schema : Schema) (rows : List Row) : RecordBatch where
  schema
  rows := rows.filter (fitsFields schema.fields)
  fits _ hr := (List.mem_filter.mp hr).2

/-- A table of one integer column. -/
def idSchema : Schema := ⟨[Field.new "id" .int64 false], []⟩

def idBatch (ids : List ℤ) : RecordBatch := batchOf idSchema (ids.map fun i => [.int64 i])

end StrataDB.Txn
