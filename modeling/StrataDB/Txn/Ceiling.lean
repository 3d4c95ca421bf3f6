import StrataDB.Txn.Allocation

/-! The ceiling that opening puts on row ids. Only recovery compares the counter with
it; claims go on up to the end of 64 bits. What a run may insert before its dataset
can no longer be opened follows from the rows it stages: a claim moves the greatest
record by the rows of its transaction, and nothing else moves it. -/

namespace StrataDB.Txn

open Lib Arrow Index Storage

/-! ### What leaves the records alone -/

/-- Everything but a claim: no record appears, and the last timestamp does not fall. -/
structure Unreserving (d d' : Dataset) : Prop where
  records : ∀ last, (d'.store.get (.reservation last)).isSome →
    (d.store.get (.reservation last)).isSome
  issued_le : d.lastIssuedTimestamp ≤ d'.lastIssuedTimestamp

theorem Unreserving.refl (d : Dataset) : Unreserving d d := ⟨fun _ h => h, le_rfl⟩

variable {d d' : Dataset} {bound : ℕ} {t : Transaction}

theorem Unreserving.trans {d₁ : Dataset} (h : Unreserving d d₁) (h' : Unreserving d₁ d') :
    Unreserving d d' :=
  ⟨fun last hl => h.records last (h'.records last hl), h.issued_le.trans h'.issued_le⟩

theorem WritesOnly.unreserving {names : ObjectName → Prop} (h : WritesOnly names d d') :
    Unreserving d d' :=
  ⟨fun last hl => by rwa [h.reservation_eq] at hl, h.issued_eq.ge⟩

section

variable {α β : Type}

theorem unreserving_bind {x : Action α} {f : α → Action β} (hx : Effect.Within Unreserving x)
    (hf : ∀ a, Effect.Within Unreserving (f a)) : Effect.Within Unreserving (x >>= f) :=
  Effect.Within.bind (R := Unreserving) (fun _ _ _ => Unreserving.trans) hx hf

theorem unreserving_lift (x : Except TxnError α) :
    Effect.Within Unreserving (Effect.lift x : Action α) := .lift Unreserving.refl x

theorem unreserving_reads (f : Dataset → α) :
    Effect.Within Unreserving (Effect.reads f : Action α) := .reads Unreserving.refl f

theorem unreserving_pure (a : α) : Effect.Within Unreserving (pure a : Action α) :=
  .pure Unreserving.refl a

end

theorem unreserving_issueTimestamp (clock : Option ℕ) :
    Effect.Within Unreserving (issueTimestamp clock) := by
  intro d
  unfold issueTimestamp
  split
  · exact .refl d
  · exact ⟨fun _ h => h, le_max_left _ _⟩

theorem unreserving_nextAttempt : Effect.Within Unreserving nextAttempt :=
  fun _ => ⟨fun _ h => h, le_rfl⟩

theorem unreserving_takeAttempt (t : Transaction) (faults : WriteFaults) :
    Effect.Within Unreserving (takeAttempt t faults) :=
  unreserving_bind (unreserving_lift _) fun _ => unreserving_bind (unreserving_lift _) fun _ =>
    unreserving_nextAttempt

variable (P : Platform)

theorem unreserving_writePendingBatches (pending : List RecordBatch) (attempt : ℕ)
    (range : RowIdRange) (ts : ℤ) (inputs : ℕ → FileInput) :
    Effect.Within Unreserving (writePendingBatches P pending attempt range ts inputs) :=
  unreserving_bind (fun d => (within_writeBatchesFrom P attempt ts inputs 0 range.base pending
    d).unreserving) fun _ => unreserving_bind (unreserving_lift _) fun _ => unreserving_pure _

variable (attempt : ℕ)

theorem unreserving_buildAndWriteSegment (inserts : List VectorInsert) (zoneMap : Stats)
    (fault : Fault) :
    Effect.Within Unreserving (buildAndWriteSegment P attempt inserts zoneMap fault) :=
  fun d => (within_buildAndWriteSegment P attempt inserts zoneMap fault d).unreserving

theorem unreserving_indexWritten (written : WrittenFiles) (faults : WriteFaults) :
    Effect.Within Unreserving (indexWritten P attempt written faults) :=
  unreserving_bind (unreserving_reads _) fun _ => unreserving_bind (unreserving_lift _) fun _ =>
    unreserving_bind (unreserving_buildAndWriteSegment _ _ _ _ _) fun _ =>
      unreserving_bind (unreserving_lift _) fun _ => unreserving_pure _

theorem unreserving_publishCandidateManifest (m : Manifest) (fault : Fault) :
    Effect.Within Unreserving (publishCandidateManifest P m fault) := by
  intro d
  have hstore := commitManifestWith_store P.format d.store m fault
  have hkey : ∀ last, Store.get (d.store.insert m.key (.manifest m)) (.reservation last) =
      d.store.get (.reservation last) :=
    fun last => Store.get_insert_of_ne _ _ (by simp [Manifest.key])
  rw [publishCandidateManifest_eq]
  refine ⟨fun last hl => ?_, le_rfl⟩
  rcases hstore with h | h <;> rw [h] at hl
  · exact hl
  · rwa [hkey] at hl

theorem unreserving_completeVisiblePublication {α : Type} (snapshot : Snapshot)
    (writeSet : List ℕ) (indeterminate : Option TxnError) (result : α) :
    Effect.Within Unreserving
      (completeVisiblePublication snapshot writeSet indeterminate result) :=
  fun _ => ⟨fun _ h => h, le_rfl⟩

theorem unreserving_publishCommit (t : Transaction) (ts : ℤ) (files : List DataFileEntry)
    (segment : Option PublishedSegment) (fault : Fault) :
    Effect.Within Unreserving (publishCommit P t ts files segment fault) :=
  unreserving_bind (unreserving_reads _) fun _ => unreserving_bind (unreserving_lift _) fun _ =>
    unreserving_bind (unreserving_lift _) fun _ => unreserving_bind (unreserving_lift _) fun _ =>
      unreserving_bind (unreserving_publishCandidateManifest _ _ _) fun _ =>
        unreserving_completeVisiblePublication _ _ _ _

theorem unreserving_compactionCandidate (clock : Option ℕ) (faults : CompactionFaults) :
    Effect.Within Unreserving (compactionCandidate P clock faults) :=
  unreserving_bind (unreserving_reads _) fun _ => unreserving_bind (unreserving_lift _) fun _ =>
    unreserving_bind (unreserving_lift _) fun _ => unreserving_bind unreserving_nextAttempt fun _ =>
      unreserving_bind (unreserving_lift _) fun _ =>
        unreserving_bind (fun d => (within_rewriteRows P _ _ _ _ d).unreserving) fun _ =>
          unreserving_bind (unreserving_buildAndWriteSegment _ _ _ _ _) fun _ =>
            unreserving_bind (unreserving_reads _) fun _ =>
              unreserving_bind (unreserving_issueTimestamp _) fun _ =>
                unreserving_bind (unreserving_lift _) fun _ => unreserving_pure _

theorem unreserving_publishCompaction (clock : Option ℕ) (faults : CompactionFaults) :
    Effect.Within Unreserving (publishCompaction P clock faults) :=
  unreserving_bind (unreserving_compactionCandidate P clock faults) fun _ =>
    unreserving_bind (unreserving_publishCandidateManifest _ _ _) fun _ =>
      unreserving_completeVisiblePublication _ _ _ _

theorem unreserving_migrationCandidate (migration : SchemaMigration) (clock : Option ℕ)
    (faults : MigrationFaults) :
    Effect.Within Unreserving (migrationCandidate P migration clock faults) :=
  unreserving_bind (unreserving_reads _) fun _ => unreserving_bind (unreserving_lift _) fun _ =>
    unreserving_bind (unreserving_lift _) fun _ => unreserving_bind (unreserving_lift _) fun _ =>
      unreserving_bind (unreserving_lift _) fun _ =>
        unreserving_bind (.forEach Unreserving.refl (fun _ _ _ => Unreserving.trans) fun p _ d =>
          (within_migrateFile P _ _ _ p d).unreserving) fun _ =>
          unreserving_bind (.forEach Unreserving.refl (fun _ _ _ => Unreserving.trans) fun p _ d =>
            (within_migrateSegment _ _ p d).unreserving) fun _ =>
            unreserving_bind (unreserving_issueTimestamp _) fun _ =>
              unreserving_bind (unreserving_reads _) fun _ =>
                unreserving_bind (unreserving_lift _) fun _ => unreserving_pure _

theorem unreserving_migrateSchema (migration : SchemaMigration) (clock : Option ℕ)
    (faults : MigrationFaults) :
    Effect.Within Unreserving (migrateSchema P migration clock faults) :=
  unreserving_bind (unreserving_migrationCandidate P migration clock faults) fun _ =>
    unreserving_bind (unreserving_publishCandidateManifest _ _ _) fun _ =>
      unreserving_completeVisiblePublication _ _ _ _

theorem unreserving_deleteObject (key : Key) (fault : Fault) :
    Effect.Within Unreserving (deleteObject key fault) := by
  intro d
  rcases hrun : deleteObject key fault d with ⟨r, d'⟩
  rcases System.deleteObject_cases hrun with rfl | rfl
  · exact .refl _
  · refine ⟨fun last hl => ?_, le_rfl⟩
    rw [Store.get_erase] at hl
    split at hl
    · cases hl
    · exact hl

/-! ### Claims -/

/-- A claim moves the records by the number of its rows at most. -/
theorem claimWithin_records {count : ℕ} {faults : ℕ → ReservationFaults} {fuel : ℕ} {s s' : Store}
    {next next' : ℕ} {r : Option (Except TxnError RowIdRange)}
    (h : claimWithin count faults fuel s next = (s', next', r)) (hnext : next ≤ bound)
    (hrecords : ∀ last, (s.get (.reservation last)).isSome → last ≤ bound) :
    ∀ last, (s'.get (.reservation last)).isSome → last ≤ bound + count := by
  have hkept : ∀ last, (s.get (.reservation last)).isSome → last ≤ bound + count :=
    fun last hl => (hrecords last hl).trans (Nat.le_add_right _ _)
  induction fuel generalizing s next with
  | zero =>
    simp only [claimWithin, Prod.mk.injEq] at h
    obtain ⟨rfl, -, -⟩ := h
    exact hkept
  | succ fuel ih =>
    unfold claimWithin at h
    split at h
    · simp only [Prod.mk.injEq] at h
      obtain ⟨rfl, -, -⟩ := h
      exact hkept
    · rename_i last hadd
      obtain ⟨rfl, -⟩ := checkedAdd_eq_ok.mp hadd
      have hnew : ∀ {s₁ res}, persistRowIdHighWaterAtLeast s (next + count) (faults fuel) =
          (s₁, res) → ∀ last, (s₁.get (.reservation last)).isSome → last ≤ bound + count := by
        intro s₁ res hpersist last hl
        rcases (persist_spec hpersist).store with rfl | rfl
        · exact hkept last hl
        · rw [Store.get_insert] at hl
          split at hl
          · rename_i heq
            cases heq
            omega
          · exact hkept last hl
      split at h
      · rename_i s₁ persisted hpersist
        split at h
        · simp only [Prod.mk.injEq] at h
          obtain ⟨rfl, -, -⟩ := h
          exact hnew hpersist
        · -- a record above the end was there before
          rename_i hne
          obtain ⟨hv, -, -, heq | ⟨rfl, hmax⟩⟩ := (persist_spec hpersist).ok persisted rfl
          · exact absurd heq hne
          · have hle := hrecords persisted (by rw [(reservations_max hv hmax).1]; rfl)
            exact ih h (max_le hnext hle) hrecords hkept
      · rename_i hpersist
        simp only [Prod.mk.injEq] at h
        obtain ⟨rfl, -, -⟩ := h
        exact hnew hpersist
      · rename_i hpersist
        simp only [Prod.mk.injEq] at h
        obtain ⟨rfl, -, -⟩ := h
        exact hnew hpersist

theorem claimForPending_records {faults : ℕ → ReservationFaults} {r : Except TxnError RowIdRange}
    (h : claimForPending t faults d = (r, d')) (hnext : d.nextRowId ≤ bound)
    (hrecords : ∀ last, (d.store.get (.reservation last)).isSome → last ≤ bound) :
    ∀ last, (d'.store.get (.reservation last)).isSome → last ≤ bound + t.rows.length := by
  unfold claimForPending at h
  rcases Effect.lift_bind_cases h with ⟨total, htotal, hclaim⟩ | ⟨e, -, -, rfl⟩
  · have hlen := totalRows_eq_ok htotal
    rw [Nat.zero_add] at hlen
    rw [Transaction.rows, ← hlen]
    unfold claimRowIds claim at hclaim
    rcases hwithin : claimWithin total faults claimRounds d.store d.nextRowId with ⟨s', next', res⟩
    rw [hwithin] at hclaim
    have hd' : d'.store = s' := by
      cases res <;> (obtain ⟨-, rfl⟩ := Prod.mk.inj hclaim; rfl)
    rw [hd']
    exact claimWithin_records hwithin hnext hrecords
  · exact fun last hl => (hrecords last hl).trans (Nat.le_add_right _ _)

theorem claimForPending_eq {pending : List RecordBatch} {total : ℕ} (ht : t.pending = pending)
    (h : totalRows 0 pending = .ok total) (faults : ℕ → ReservationFaults) :
    claimForPending t faults = claimRowIds total faults := by
  unfold claimForPending
  rw [ht, h]
  rfl

/-! ### Runs -/

/-- The rows a label stages. -/
def Label.rows : Label → ℕ
  | .insert _ batch => batch.numRows
  | .update _ _ batch => batch.numRows
  | _ => 0

/-- The rows a transaction may still claim ids for. -/
def TxnState.unclaimed (t : TxnState) : ℕ :=
  match t.stage with
  | .staging => t.txn.rows.length
  | .started _ => t.txn.rows.length
  | .numbered _ _ => t.txn.rows.length
  | _ => 0

def System.unclaimed (s : System) : ℕ := (s.txns.map TxnState.unclaimed).sum

/-- Every record would stay below the bound if all staged rows were claimed above it. -/
def System.ReservesBelow (s : System) (bound : ℕ) : Prop :=
  ∀ last, (s.dataset.store.get (.reservation last)).isSome → last + s.unclaimed ≤ bound

namespace System.ReservesBelow

variable {P : Platform} {s s' : System} {bound : ℕ}

theorem mono (h : s.ReservesBelow bound) (hd : Unreserving s.dataset s'.dataset)
    (hle : s'.unclaimed ≤ s.unclaimed) : s'.ReservesBelow bound := fun last hl => by
  have := h last (hd.records last hl)
  omega

variable {id : ℕ}

/-- A transaction moves on to a stage with no more unclaimed rows. -/
theorem set (h : s.ReservesBelow bound) {t t' : TxnState} {d : Dataset} (hid : s.txns[id]? = some t)
    (hd : Unreserving s.dataset d) (hle : t'.unclaimed ≤ t.unclaimed) {history : List Publication} :
    ReservesBelow { s with dataset := d, txns := s.txns.set id t', history } bound := by
  refine h.mono hd ?_
  have := sum_map_set (f := TxnState.unclaimed) hid t'
  change ((s.txns.set id t').map TxnState.unclaimed).sum ≤ (s.txns.map TxnState.unclaimed).sum
  omega

theorem commitStep {α : Type} (h : s.ReservesBelow bound) {txn : Transaction} {stage : Stage}
    {action : Action α} {next : α → Stage} (hid : s.txns[id]? = some ⟨txn, stage⟩)
    (hkeep : Effect.Within Unreserving action)
    (hnext : ∀ a, TxnState.unclaimed ⟨txn, next a⟩ ≤ TxnState.unclaimed ⟨txn, stage⟩) :
    ReservesBelow (Txn.commitStep s id txn action next) bound := by
  unfold Txn.commitStep
  split
  · rename_i a d hrun
    exact h.set hid (hkeep.of_eq hrun) (hnext a)
  · rename_i e d hrun
    exact h.set hid (hkeep.of_eq hrun) (Nat.zero_le _)

/-- The rows of the transaction are claimed now, or never. -/
theorem claim (h : s.ReservesBelow bound) (hi : s.Inv P) {id : ℕ} {txn : Transaction} {ts : ℤ}
    {attempt : ℕ} {faults : ℕ → ReservationFaults}
    (hid : s.txns[id]? = some ⟨txn, .numbered ts attempt⟩) :
    ReservesBelow
      (Txn.commitStep s id txn (claimForPending txn faults) (.claimed ts attempt)) bound := by
  obtain ⟨top, htop, hle⟩ := hi.recorded.durable.reaches
  have hroom := fun last hl => Nat.le_sub_of_add_le (h last hl)
  have hnext := hle.trans (hroom top (by rw [htop]; rfl))
  have hbound := h top (by rw [htop]; rfl)
  have hsum := fun stage => sum_map_set (f := TxnState.unclaimed) hid ⟨txn, stage⟩
  have hnow : TxnState.unclaimed ⟨txn, .numbered ts attempt⟩ = txn.rows.length := rfl
  -- either way nothing of the transaction is left to claim
  have hdone : ∀ d r stage, claimForPending txn faults s.dataset = (r, d) →
      TxnState.unclaimed ⟨txn, stage⟩ = 0 →
      ReservesBelow { s with dataset := d, txns := s.txns.set id ⟨txn, stage⟩ } bound := by
    intro d r stage hrun hzero last hl
    have hrecord := claimForPending_records hrun hnext hroom last hl
    have := hsum stage
    simp only [System.unclaimed] at hrecord hbound ⊢
    omega
  unfold Txn.commitStep
  split
  · rename_i a d hrun
    exact hdone d _ _ hrun rfl
  · rename_i e d hrun
    exact hdone d _ _ hrun rfl

theorem planStep (h : s.ReservesBelow bound) (plan : Except TxnError (List Candidate)) :
    (Txn.planStep s plan).ReservesBelow bound := by
  unfold Txn.planStep
  split <;> exact h

theorem stage (h : s.ReservesBelow bound) {label : Label}
    {op : Transaction → Except TxnError Transaction} {txn txn' : Transaction}
    (hlabel : label.stages = some (id, op)) (hid : s.txns[id]? = some ⟨txn, .staging⟩)
    (hop : op txn = .ok txn') :
    (s.setTxn id ⟨txn', .staging⟩).ReservesBelow (bound + label.rows) := by
  have hrows : txn'.rows.length = txn.rows.length + label.rows := by
    cases label <;> cases hlabel
    · simp only [Transaction.insert, bind_eq_ok, pure_eq_ok] at hop
      obtain ⟨-, -, rfl⟩ := hop
      simp [Transaction.rows, Label.rows, RecordBatch.numRows]
    · simp only [Transaction.delete, bind_eq_ok, pure_eq_ok] at hop
      obtain ⟨-, -, rfl⟩ := hop
      rfl
    · simp only [Transaction.update, bind_eq_ok, ensure_eq_ok, pure_eq_ok, exists_const] at hop
      obtain ⟨-, -, -, -, -, rfl⟩ := hop
      simp [Transaction.rows, Label.rows, RecordBatch.numRows]
  intro last hl
  have hnow : TxnState.unclaimed ⟨txn', .staging⟩ =
      TxnState.unclaimed ⟨txn, .staging⟩ + label.rows := hrows
  have hsum := sum_map_set (f := TxnState.unclaimed) hid ⟨txn', .staging⟩
  have hle := h last hl
  change last + ((s.txns.set id _).map TxnState.unclaimed).sum ≤ _
  simp only [System.unclaimed] at hle
  omega

theorem reopen (h : s.ReservesBelow bound) (hi : s.Inv P) (hs : reopenStep P s = some s') :
    s'.ReservesBelow bound := by
  unfold reopenStep at hs
  split at hs
  · rename_i d hopen
    cases hs
    have hle : ((s.txns.map fun t => if t.stage.alive then ⟨t.txn, .dropped⟩ else t).map
        TxnState.unclaimed).sum ≤ (s.txns.map TxnState.unclaimed).sum := by
      rw [List.map_map]
      refine List.sum_le_sum fun t _ => ?_
      dsimp only [Function.comp]
      split
      · exact Nat.zero_le _
      · exact le_rfl
    intro last hl
    have hstore : d.store = s.dataset.store := (hi.opened hopen).1
    have hbound := h last (by rwa [← hstore])
    simp only [System.unclaimed] at hbound ⊢
    omega
  · cases hs

theorem step (h : s.ReservesBelow bound) (hi : s.Inv P) {label : Label}
    (hs : systemStep P s label = some s') : s'.ReservesBelow (bound + label.rows) := by
  cases System.Move.of_step hs with
  | begin =>
    intro last hl
    have hle := h last hl
    simp only [System.unclaimed, List.map_append, List.sum_append] at hle ⊢
    exact hle
  | stage hlabel hid hop => exact h.stage hlabel hid hop
  | refuse _ => exact fun last hl => (h last hl).trans (Nat.le_add_right _ _)
  | rollback hid | skip hid _ => exact h.set hid (.refl _) (Nat.zero_le _)
  | start hid _ => exact h.commitStep hid (unreserving_issueTimestamp _) fun _ => le_rfl
  | number hid => exact h.commitStep hid (unreserving_takeAttempt _ _) fun _ => le_rfl
  | claim hid => exact h.claim hi hid
  | write hid =>
    exact h.commitStep hid (unreserving_writePendingBatches _ _ _ _ _ _) fun _ => le_rfl
  | index hid => exact h.commitStep hid (unreserving_indexWritten _ _ _ _) fun _ => le_rfl
  | publish hid hrun =>
    exact h.set hid ((unreserving_publishCommit _ _ _ _ _ _).of_eq hrun) (Nat.zero_le _)
  | compact _ hrun => exact h.mono ((unreserving_publishCompaction _ _ _).of_eq hrun) le_rfl
  | migrate _ hrun => exact h.mono ((unreserving_migrateSchema _ _ _ _).of_eq hrun) le_rfl
  | plan hplan _ => cases label <;> cases hplan <;> exact h.planStep _
  | deleteNext _ hrun => exact h.mono ((unreserving_deleteObject _ _).of_eq hrun) le_rfl
  | reopen hs => exact h.reopen hi hs
  | _ => exact h

theorem run (h : s.ReservesBelow bound) (hi : s.Inv P) {labels : List Label}
    (hrun : (system P).run s labels = some s') :
    s'.ReservesBelow (bound + (labels.map Label.rows).sum) := by
  induction labels generalizing s bound with
  | nil =>
    cases hrun
    exact h
  | cons label labels ih =>
    obtain ⟨s₁, hstep, hrun⟩ := Option.bind_eq_some_iff.mp hrun
    rw [List.map_cons, List.sum_cons, ← Nat.add_assoc]
    exact ih (h.step hi hstep) (hi.step hstep) hrun

end System.ReservesBelow

/-! ### Opening -/

/-- A reachable dataset is refused for its row ids exactly if a record is above the
ceiling. -/
theorem System.Inv.open_capacity {P : Platform} {s : System} (h : s.Inv P) :
    (∃ actual maximum,
      openDataset P s.dataset.store = .error (.unreasonableCapacity actual maximum)) ↔
      ∃ last, (s.dataset.store.get (.reservation last)).isSome ∧
        maxReasonableRowIdCapacity < last := by
  obtain ⟨last, cat, -, -, -, hv, -, hstored⟩ := h.recorded.current_valid
  obtain ⟨highest, hread, hle, -⟩ := h.recorded.durable.highWater
  obtain ⟨hrecords, hmax⟩ := readRowIdHighWater_eq_ok.mp hread
  obtain ⟨hget, hgreatest⟩ := reservations_max hrecords hmax.symm
  have hfloor : max s.dataset.current.manifest.nextRowId highest = highest :=
    max_eq_right (h.recorded.rowIds_le.trans hle)
  have hcond : (∃ last, (s.dataset.store.get (.reservation last)).isSome ∧
      maxReasonableRowIdCapacity < last) ↔ ¬ highest ≤ maxReasonableRowIdCapacity := by
    constructor
    · rintro ⟨last, hlast, hlt⟩ hcap
      have := hgreatest last hlast
      omega
    · exact fun hcap => ⟨highest, by rw [hget]; rfl, by omega⟩
  have hschema : validateSchema s.dataset.current.manifest.schema = .ok () := by
    rw [hv.schema_eq]
    exact validateSchema_eq_ok.mpr hv.wellNamed
  rw [hcond]
  unfold openDataset
  simp only [h.recorded.latest.readCurrent hv, lift, ok_bind, orElse, hread, hschema, hfloor,
    hv.seedWriteAttemptCounter]
  by_cases hcap : highest ≤ maxReasonableRowIdCapacity
  · rw [ensure_of _ hcap, ok_bind]
    refine iff_of_false ?_ (not_not.mpr hcap)
    rintro ⟨actual, maximum, herr⟩
    have hfails := FailsWith.bind (fails_validateCatalog P s.dataset.store
      s.dataset.current.manifest s.dataset.current.manifest.schema) (fun _ => .ok _) _ herr
    cases hfails
  · rw [ensure, if_neg hcap]
    exact iff_of_true ⟨_, _, rfl⟩ hcap

/-- Opening refuses a dataset for its row ids exactly when a reservation record is
above the ceiling, and a run gets there only by staging rows: as long as the records
at its start and all rows it stages stay below the ceiling together, opening does not
refuse. -/
theorem row_id_ceiling (P : Platform) (s₀ s : System) (hinit : (system P).init s₀)
    (labels : List Label) (hrun : (system P).run s₀ labels = some s) :
    ((∃ actual maximum,
      openDataset P s.dataset.store = .error (.unreasonableCapacity actual maximum)) ↔
      ∃ last, (s.dataset.store.get (.reservation last)).isSome ∧
        maxReasonableRowIdCapacity < last) ∧
    ((∀ last, (s₀.dataset.store.get (.reservation last)).isSome →
        last + (labels.map Label.rows).sum ≤ maxReasonableRowIdCapacity) →
      ∀ actual maximum,
        openDataset P s.dataset.store ≠ .error (.unreasonableCapacity actual maximum)) := by
  have h₀ := System.inv_of_reachable (.init hinit)
  have h := System.inv_of_reachable (TransitionSystem.Reachable.run (.init hinit) hrun)
  refine ⟨h.open_capacity, fun hroom actual maximum herr => ?_⟩
  obtain ⟨last, hlast, hlt⟩ := h.open_capacity.mp ⟨actual, maximum, herr⟩
  obtain ⟨top, htop, -⟩ := h₀.recorded.durable.reaches
  have hstart : s₀.ReservesBelow
      (maxReasonableRowIdCapacity - (labels.map Label.rows).sum) := by
    obtain ⟨_, _, _, _, _, _, _, _, rfl⟩ := hinit
    intro last hl
    have := hroom last hl
    change last + 0 ≤ _
    omega
  have hend := hstart.run h₀ hrun last hlast
  have := hroom top (by rw [htop]; rfl)
  omega

/-- Two rows are far below it. -/
theorem row_id_ceiling_twoRows :
    ∃ s, plainRun idSchema (insertLabels (idBatch [10, 20])) = some s ∧
      ∀ actual maximum,
        openDataset plainPlatform s.dataset.store ≠
          .error (.unreasonableCapacity actual maximum) := by
  have hrun : ((createDataset plainPlatform ∅ idSchema 4 (some 0) {}).2.toOption.bind fun d =>
      ((system plainPlatform).run (System.created d) (insertLabels (idBatch [10, 20]))).map fun _ =>
        d.store.reservations) = some [0] := by
    decide +kernel
  obtain ⟨d, hd, h⟩ := Option.bind_eq_some_iff.mp hrun
  obtain ⟨s, hs, hrecords⟩ := Option.map_eq_some_iff.mp h
  have hinit : (system plainPlatform).init (System.created d) :=
    ⟨∅, idSchema, 4, some 0, {}, _, d, Prod.ext rfl (toOption_eq_some.mp hd), rfl⟩
  refine ⟨s, Option.bind_eq_some_iff.mpr ⟨d, hd, hs⟩,
    (row_id_ceiling plainPlatform _ s hinit _ hs).2 fun last hl => ?_⟩
  have hmem : last ∈ d.store.reservations := Store.mem_reservations.mpr hl
  rw [hrecords, List.mem_singleton] at hmem
  rw [hmem]
  decide +kernel

/-! ### A failed insert above the ceiling -/

/-- One row more than the ceiling allows. -/
def oversizedBatch : RecordBatch :=
  batchOf idSchema (List.replicate (maxReasonableRowIdCapacity + 1) [.int64 0])

theorem totalRows_oversized :
    totalRows 0 [oversizedBatch] = .ok (maxReasonableRowIdCapacity + 1) := by
  have hrows : oversizedBatch.numRows = maxReasonableRowIdCapacity + 1 := by
    change ((List.replicate _ _).filter _).length = _
    rw [List.filter_replicate_of_pos (by decide), List.length_replicate]
  simp only [totalRows, hrows]
  rfl

def oversizedStart : List Label :=
  [.begin, .insert 0 oversizedBatch, .start 0 (some 1), .number 0 {}]

def lateReservation : ℕ → ReservationFaults := fun _ => { put := .late }

/-- The record of the first transaction becomes visible, but the transaction fails on
the directory sync; the second one commits a single row. -/
def oversizedLabels : List Label :=
  oversizedStart ++ .claim 0 lateReservation :: [.begin, .insert 1 (idBatch [20])] ++
    commitLabels 1 2

theorem claimForPending_oversized (ht : t.pending = [oversizedBatch]) :
    claimForPending t lateReservation =
      claimRowIds (maxReasonableRowIdCapacity + 1) lateReservation := by
  refine claimForPending_eq ht ?_ _
  exact totalRows_oversized

/-- The claim of the first transaction, with its rows counted. -/
theorem oversized_claim :
    ((plainRun idSchema oversizedStart).bind fun s =>
      (system plainPlatform).step s (.claim 0 lateReservation)) =
    (plainRun idSchema oversizedStart).bind fun s => s.txns[0]?.map fun t =>
      commitStep s 0 t.txn (claimRowIds (maxReasonableRowIdCapacity + 1) lateReservation)
        (.claimed 1 0) := by
  obtain ⟨s, base, hs, htxns⟩ : ∃ s base, plainRun idSchema oversizedStart = some s ∧
      s.txns = [⟨⟨base, idSchema, [oversizedBatch], [], [], []⟩, .numbered 1 0⟩] := ⟨_, _, rfl, rfl⟩
  have hclaim : claimForPending ⟨base, idSchema, [oversizedBatch], [], [], []⟩ lateReservation =
      claimRowIds (maxReasonableRowIdCapacity + 1) lateReservation :=
    claimForPending_oversized rfl
  have hid : s.txns[0]? = some ⟨⟨base, idSchema, [oversizedBatch], [], [], []⟩, .numbered 1 0⟩ := by
    rw [htxns]
    rfl
  rw [hs, Option.bind_some, Option.bind_some, hid, Option.map_some, ← hclaim]
  change commitPart plainPlatform s 0 (.claim 0 lateReservation) = _
  rw [commitPart, hid]

/-- The last commit is acknowledged, and the dataset cannot be opened any more. -/
theorem row_id_ceiling_oversized :
    ∃ s, plainRun idSchema oversizedLabels = some s ∧
      (∃ t, s.txns[1]? = some ⟨t, .finished (.ok ())⟩) ∧
      openDataset plainPlatform s.dataset.store =
        .error (.unreasonableCapacity 1000000002 1000000000) := by
  have hlast : (((plainRun idSchema oversizedStart).bind fun s => s.txns[0]?.map fun t =>
      commitStep s 0 t.txn (claimRowIds (maxReasonableRowIdCapacity + 1) lateReservation)
        (.claimed 1 0)).bind fun s => (system plainPlatform).run s
          ([.begin, .insert 1 (idBatch [20])] ++ commitLabels 1 2)).map (fun s =>
        (s.txns[1]?.bind fun t => match t.stage with
          | .finished outcome => some outcome.isOk
          | _ => none,
        decide ((openDataset plainPlatform s.dataset.store).map (fun _ => ()) =
          .error (.unreasonableCapacity 1000000002 1000000000)))) =
      some (some true, true) := by
    decide +kernel
  rw [← oversized_claim] at hlast
  obtain ⟨s, hs, hout⟩ := Option.map_eq_some_iff.mp hlast
  have hrun : plainRun idSchema oversizedLabels = some s := by
    rw [oversizedLabels, List.append_assoc, plainRun, runOn_append, ← hs, Option.bind_assoc]
    exact congrArg _ (funext fun _ => rfl)
  simp only [Prod.mk.injEq, decide_eq_true_eq] at hout
  obtain ⟨hstage, hopen⟩ := hout
  obtain ⟨⟨txn, stage⟩, ht, hfinished⟩ := Option.bind_eq_some_iff.mp hstage
  refine ⟨s, hrun, ⟨txn, ?_⟩, ?_⟩
  · cases stage with
    | finished outcome =>
      cases outcome with
      | ok u => exact ht
      | error e => cases hfinished
    | _ => cases hfinished
  · cases h : openDataset plainPlatform s.dataset.store with
    | ok d =>
      rw [h] at hopen
      cases hopen
    | error e =>
      rw [h] at hopen
      cases hopen
      rfl

end StrataDB.Txn
