import StrataDB.Txn.Migration
import StrataDB.Txn.Publishing

/-! Which errors a commit and a migration can end with before they publish: none
of them is the indeterminate publication, so that the result tells whether the
version is visible. -/

namespace StrataDB.Txn

open Lib Arrow Index Storage

/-- An error that leaves no doubt: nothing was published. -/
def TxnError.Definite (e : TxnError) : Prop :=
  ∀ version source, e ≠ .indeterminateManifestPublication version source

/-- The computation fails with definite errors only. -/
abbrev Definite {α : Type} (x : Except TxnError α) : Prop := FailsWith TxnError.Definite x

abbrev DefiniteAction {α : Type} (x : Action α) : Prop := Effect.FailsWith TxnError.Definite x

variable {α : Type} {e : TxnError}

theorem definite_lift {ε : Type} {wrap : ε → TxnError} (hwrap : ∀ e, (wrap e).Definite)
    (x : Except ε α) : Definite (lift wrap x) := by
  cases x with
  | ok a => exact .ok a
  | error e => exact .error (hwrap e)

theorem definite_arrow (x : Except ArrowError α) : Definite (lift .arrow x) :=
  definite_lift (fun _ _ _ => by simp) x

theorem definite_index (x : Except IndexError α) : Definite (lift .index x) :=
  definite_lift (fun _ _ _ => by simp) x

theorem definite_storage (x : Except StorageError α) : Definite (lift .storage x) :=
  definite_lift (fun _ _ _ => by simp) x

theorem definite_checkedAdd (a b : ℕ) (what : String) : Definite (checkedAdd a b what) := by
  unfold checkedAdd
  split
  · exact .ok _
  · exact .error fun _ _ => by simp

/-! ### Vectors and stored batches -/

variable (schema : Schema)

theorem definite_vectorIndex : Definite (vectorIndex schema) := by
  unfold vectorIndex
  repeat' split
  all_goals first | exact .ok _ | exact .error fun _ _ => by simp

theorem definite_vectorInsert (rowId : ℕ) (c : Cell) : Definite (vectorInsert rowId c) := by
  unfold vectorInsert
  repeat' split
  all_goals first | exact .ok _ | exact .error fun _ _ => by simp

theorem definite_buildVectorInserts (batch : RecordBatch) (rowIdBase : ℕ) :
    Definite (buildVectorInserts batch rowIdBase) := by
  refine .bind (definite_vectorIndex _) fun index => ?_
  cases index with
  | none => exact .ok _
  | some index =>
    exact .bind (.mapM (fun p => .bind (definite_checkedAdd _ _ _) fun _ =>
      definite_vectorInsert _ _) _) fun _ => .ok _

theorem definite_encodeUserColumns (K : Kernels) (batch : RecordBatch) :
    Definite (encodeUserColumns K batch) := by
  unfold encodeUserColumns
  split
  · exact .ok _
  · exact definite_arrow _

variable (P : Platform)

theorem definite_physicalBatch (batch : RecordBatch) (rowIdBase : ℕ) (ts : ℤ) :
    Definite (physicalBatch P batch rowIdBase ts) :=
  .bind (definite_encodeUserColumns _ _) fun _ => .bind (definite_arrow _) fun _ =>
    definite_arrow _

theorem definite_validateVectorDimensions (inserts : List VectorInsert) (expected : ℕ) :
    Definite (validateVectorDimensions inserts expected) := by
  induction inserts generalizing expected with
  | nil => exact .ok _
  | cons v inserts ih =>
    unfold validateVectorDimensions
    repeat' split
    · exact ih _
    · exact ih _
    · exact .error fun _ _ => by simp

/-! ### Actions on the handle -/

theorem definite_readClock (clock : Option ℕ) : Definite (readClock clock) :=
  .bind (.orElse fun _ _ => by simp) fun _ => .bind (.ensure fun _ _ => by simp) fun _ => .ok _

theorem definite_issueTimestamp (clock : Option ℕ) : DefiniteAction (issueTimestamp clock) := by
  intro d e he
  unfold issueTimestamp at he
  split at he
  · rename_i hclock
    cases he
    exact definite_readClock clock _ hclock
  · cases he

theorem definite_putObject (key : Key) (object : Object) (fault : Fault) :
    DefiniteAction (putObject key object fault) := by
  intro d e he
  unfold putObject at he
  split at he <;> cases he
  exact fun _ _ => by simp

theorem definite_localCall (fails : Bool) (what : String) :
    DefiniteAction (localCall fails what) :=
  .lift (.ensure fun _ _ => by simp)

theorem definite_nextAttempt : DefiniteAction nextAttempt := fun _ => .ok _

variable (count : ℕ)

theorem definite_claimWithin (faults : ℕ → ReservationFaults) (fuel : ℕ) (s : Store) (next : ℕ)
    {s' : Store} {next' : ℕ}
    (h : claimWithin count faults fuel s next = (s', next', some (.error e))) : e.Definite := by
  induction fuel generalizing s next with
  | zero => cases h
  | succ fuel ih =>
    unfold claimWithin at h
    split at h
    · rename_i hadd
      cases h
      exact definite_checkedAdd _ _ _ _ hadd
    · split at h
      · split at h
        · cases h
        · exact ih _ _ h
      · cases h
        exact fun _ _ => by simp
      · cases h
        exact fun _ _ => by simp

theorem definite_claimRowIds (faults : ℕ → ReservationFaults) :
    DefiniteAction (claimRowIds count faults) := by
  intro d e he
  unfold claimRowIds claim at he
  split at he
  rename_i hclaim
  split at hclaim
  · rename_i hwithin
    cases hclaim
    obtain rfl : _ = Except.error e := he
    exact definite_claimWithin _ _ _ _ _ hwithin
  · cases hclaim
    cases he
    exact fun _ _ => by simp

/-! ### Preparation of a commit -/

variable (t : Transaction)

theorem definite_takeAttempt (faults : WriteFaults) : DefiniteAction (takeAttempt t faults) :=
  .bind (.lift (.forM (fun _ => .forM (fun _ => .ensure fun _ _ => by simp) _) _)) fun _ =>
    .bind (definite_localCall _ _) fun _ => definite_nextAttempt

theorem definite_totalRows (total : ℕ) (pending : List RecordBatch) :
    Definite (totalRows total pending) := by
  induction pending generalizing total with
  | nil => exact .ok _
  | cons batch pending ih => exact .bind (definite_checkedAdd _ _ _) fun _ => ih _

theorem definite_claimForPending (faults : ℕ → ReservationFaults) :
    DefiniteAction (claimForPending t faults) :=
  .bind (.lift (definite_totalRows _ _)) fun _ => definite_claimRowIds _ _

variable (attempt : ℕ)

theorem definite_writeBatchesFrom (ts : ℤ) (inputs : ℕ → FileInput) (i base : ℕ)
    (pending : List RecordBatch) :
    DefiniteAction (writeBatchesFrom P attempt ts inputs i base pending) := by
  induction pending generalizing i base with
  | nil => exact .pure _
  | cons batch pending ih =>
    refine .bind ?_ fun _ => .bind (ih _ _) fun _ => .pure _
    exact .bind (.lift (definite_buildVectorInserts _ _)) fun _ =>
      .bind (.lift (definite_physicalBatch _ _ _ _)) fun _ =>
        .bind (definite_putObject _ _ _) fun _ => .pure _

theorem definite_writePendingBatches (pending : List RecordBatch) (attempt : ℕ) (range : RowIdRange)
    (ts : ℤ) (inputs : ℕ → FileInput) :
    DefiniteAction (writePendingBatches P pending attempt range ts inputs) :=
  .bind (definite_writeBatchesFrom _ _ _ _ _ _ _) fun _ =>
    .bind (.lift (.ensure fun _ _ => by simp)) fun _ => .pure _

theorem definite_buildAndWriteSegment (inserts : List VectorInsert) (zoneMap : Stats)
    (fault : Fault) : DefiniteAction (buildAndWriteSegment P attempt inserts zoneMap fault) := by
  unfold buildAndWriteSegment
  dsimp only
  split
  · exact .pure _
  · exact .bind (.lift (definite_index _)) fun _ => .bind (.lift (definite_index _)) fun _ =>
      .bind (definite_putObject _ _ _) fun _ => .pure _

theorem definite_indexWritten (written : WrittenFiles) (faults : WriteFaults) :
    DefiniteAction (indexWritten P attempt written faults) :=
  .bind (.reads _) fun _ => .bind (.lift (definite_validateVectorDimensions _ _)) fun _ =>
    .bind (definite_buildAndWriteSegment _ _ _ _ _) fun _ =>
      .bind (definite_localCall _ _) fun _ => .pure _

theorem definite_checkCommit (log : CommitLog) (latest : Snapshot) (t : Transaction) :
    Definite (checkCommit log latest t) := by
  unfold checkCommit
  refine .bind (.ensure fun _ _ => by simp) fun _ => ?_
  cases log.conflictsWith t.base.version latest.version t.writeSet with
  | clean => exact .forM (fun _ => .ensure fun _ _ => by simp) _
  | conflict contested => exact .error fun _ _ => by simp
  | insufficientHistory oldest => exact .error fun _ _ => by simp

theorem definite_checkSegmentDimension (latest : Snapshot) (segment : Option PublishedSegment) :
    Definite (checkSegmentDimension latest segment) := by
  cases segment with
  | none => exact .ok _
  | some p => exact .ensure fun _ _ => by simp

/-! ### The catalog validators -/

/-- The errors of the validators. -/
inductive TxnError.OfCatalog : TxnError → Prop
  | storage (e : StorageError) : OfCatalog (.storage e)
  | arrow (e : ArrowError) : OfCatalog (.arrow e)
  | segment (reason : String) : OfCatalog (.corruptSegment reason)

theorem TxnError.OfCatalog.definite (h : e.OfCatalog) : e.Definite := by
  cases h <;> exact fun _ _ => by simp

abbrev FailsOfCatalog {α : Type} (x : Except TxnError α) : Prop := FailsWith TxnError.OfCatalog x

variable (store : Store) (name : ObjectName)

theorem fails_readBatch : FailsOfCatalog (readBatch store name) := by
  unfold readBatch
  split
  · exact .ok _
  · exact .error (.storage _)
  · exact .error (.storage _)

theorem fails_readSegment : FailsOfCatalog (readSegment store name) := by
  unfold readSegment
  split
  · exact .ok _
  · exact .error (.segment _)
  · exact .error (.storage _)

variable (m : Manifest) (logical : Schema)

theorem fails_validateDataFile (entry : DataFileEntry) (owned : List ℕ) :
    FailsOfCatalog (validateDataFile P store m logical entry owned) := by
  have hcheck : ∀ ids offset owned range,
      FailsOfCatalog (checkRowIds m entry.name range offset owned ids) := by
    intro ids
    induction ids with
    | nil => exact fun _ _ _ => .ok _
    | cons i ids ih =>
      exact fun _ _ _ => .bind (.orElse (.storage _)) fun _ => .bind (.ensure (.storage _)) fun _ =>
        .bind (.ensure (.storage _)) fun _ => .bind (.ensure (.storage _)) fun _ => ih _ _ _
  have hrange : FailsOfCatalog (catalogRowIdRange m entry) := by
    unfold catalogRowIdRange
    split
    · exact .bind (.ensure (.storage _)) fun _ => .ok _
    · exact .bind (.orElse (.storage _)) fun _ => .bind (.ensure (.storage _)) fun _ =>
        .bind (.ensure (.storage _)) fun _ => .ok _
  have hschema : ∀ physical,
      FailsOfCatalog (validatePhysicalBatchSchema m logical physical entry.name) := fun _ =>
    .bind (.ensure (.storage _)) fun _ => .bind (.ensure (.storage _)) fun _ =>
      .bind (.forM (fun _ => .ensure (.storage _)) _) fun _ =>
        .forM (fun _ => .ensure (.storage _)) _
  have hcolumn : ∀ batch, FailsOfCatalog (typedColumn batch rowIdColumn .uint64
      (missingField rowIdColumn)
      (corruptCatalog m s!"data file {entry.name} has non-UInt64 _row_id")) := fun _ =>
    .bind (.orElse (.arrow _)) fun _ => .bind (.ensure (.storage _)) fun _ => .ok _
  exact .bind (fails_readBatch _ _) fun _ => .bind (.ensure (.storage _)) fun _ =>
    .bind (.ensure (.storage _)) fun _ => .bind (hschema _) fun _ =>
      .bind (.ensure (.storage _)) fun _ => .bind hrange fun _ => .bind (hcolumn _) fun _ =>
        .bind (.ensure (.storage _)) fun _ => hcheck _ _ _ _

theorem fails_loadSegments (owned : List ℕ) : FailsOfCatalog (loadSegments store m owned) := by
  have hrows : ∀ ids name vectorRows,
      FailsOfCatalog (checkVectorRows name owned vectorRows ids) := by
    intro ids
    induction ids with
    | nil => exact fun _ _ => .ok _
    | cons i ids ih =>
      exact fun _ _ => .bind (.ensure (.segment _)) fun _ => .bind (.ensure (.segment _)) fun _ =>
        ih _ _
  have hseg : ∀ entry segment, FailsOfCatalog (validateSegment entry segment) := fun _ _ =>
    .bind (.ensure (.segment _)) fun _ => .bind (.ensure (.segment _)) fun _ =>
      .bind (.ensure (.segment _)) fun _ => .bind (.ensure (.segment _)) fun _ =>
        .ensure (.segment _)
  have hgo : ∀ entries seen established vectorRows,
      FailsOfCatalog (loadSegments.go store owned seen established vectorRows entries) := by
    intro entries
    induction entries with
    | nil => exact fun _ _ _ => .ok _
    | cons entry entries ih =>
      exact fun _ _ _ => .bind (.ensure (.segment _)) fun _ =>
        .bind (fails_readSegment _ _) fun _ => .bind (hseg _ _) fun _ =>
          .bind (.ensure (.segment _)) fun _ => .bind (hrows _ _ _) fun _ =>
            .bind (ih _ _ _) fun _ => .ok _
  exact hgo _ _ _ _

theorem fails_validateCatalog : FailsOfCatalog (validateCatalog P store m logical) := by
  have hfiles : ∀ entries seen owned,
      FailsOfCatalog (validateDataFiles.go P store m logical seen owned entries) := by
    intro entries
    induction entries with
    | nil => exact fun _ _ => .ok _
    | cons entry entries ih =>
      exact fun _ _ => .bind (.ensure (.storage _)) fun _ =>
        .bind (fails_validateDataFile _ _ _ _ _ _) fun _ => ih _ _
  have htombs : ∀ ids seen owned, FailsOfCatalog (validateTombstones.go m owned seen ids) := by
    intro ids
    induction ids with
    | nil => exact fun _ _ => .ok _
    | cons i ids ih =>
      exact fun _ _ => .bind (.ensure (.storage _)) fun _ => .bind (.ensure (.storage _)) fun _ =>
        ih _ _
  exact .bind (hfiles _ _ _) fun _ => .bind (htombs _ _ _) fun _ => fails_loadSegments _ _ _

theorem definite_validateCatalog : Definite (validateCatalog P store m logical) :=
  (fails_validateCatalog P store m logical).imp fun _ h => h.definite

/-! ### Preparation of a migration -/

theorem definite_validateSchema : Definite (validateSchema schema) := by
  have hgo : ∀ fs seen, Definite (validateSchema.go seen fs) := by
    intro fs
    induction fs with
    | nil => exact fun _ => .ok _
    | cons f fs ih =>
      exact fun _ => .bind (.ensure fun _ _ => by simp) fun _ =>
        .bind (.ensure fun _ _ => by simp) fun _ => ih _
  exact hgo _ _

theorem definite_migrateFile (column : Field) (version : ℕ) (inputs : ℕ → FileInput)
    (p : DataFileEntry × ℕ) : DefiniteAction (migrateFile P column version inputs p) :=
  .bind (.reads _) fun _ => .bind (.lift ((fails_readBatch _ _).imp fun _ h => h.definite)) fun _ =>
    .bind (.lift (.bind (.ensure fun _ _ => by simp) fun _ => definite_arrow _)) fun _ =>
      .bind (definite_putObject _ _ _) fun _ => .pure _

theorem definite_migrateSegment (version : ℕ) (faults : ℕ → Fault) (p : SegmentEntry × ℕ) :
    DefiniteAction (migrateSegment version faults p) :=
  .bind (.reads _) fun _ => .bind (.lift ((fails_readSegment _ _).imp fun _ h => h.definite))
    fun _ =>
    .bind (definite_putObject _ _ _) fun _ =>
      .bind (.lift (.ensure fun _ _ => by simp)) fun _ => .pure _

end StrataDB.Txn
