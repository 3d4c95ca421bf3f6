import StrataDB.Txn.Committing

/-! The parts of a commit before its publication: what each may touch, and what
it has achieved when it succeeds. -/

namespace StrataDB.Txn

open Lib Arrow Index Storage

variable {P : Platform} {t : Transaction} {d d' : Dataset}

/-! ### The attempt id -/

variable (names : ObjectName → Prop) {attempt : ℕ} {range : RowIdRange} {written : WrittenFiles}

theorem advances_takeAttempt (t : Transaction) (faults : WriteFaults) :
    Effect.Within (Advances names) (takeAttempt t faults) :=
  advances_bind (advances_lift _) fun _ => advances_bind (advances_lift _) fun _ =>
    advances_nextAttempt names

theorem takeAttempt_eq_ok {faults : WriteFaults} (h : takeAttempt t faults d = (.ok attempt, d')) :
    attempt = d.writeAttemptCounter ∧
      d' = { d with writeAttemptCounter := d.writeAttemptCounter + 1 } := by
  unfold takeAttempt localCall at h
  simp only [Effect.bind_eq_ok, Effect.lift_apply, Prod.mk.injEq] at h
  obtain ⟨_, _, ⟨_, rfl⟩, _, _, ⟨_, rfl⟩, h⟩ := h
  obtain ⟨hattempt, rfl⟩ := Prod.mk.inj h
  exact ⟨(Except.ok.inj hattempt).symm, rfl⟩

/-! ### The row ids -/

theorem totalRows_eq_ok {start total : ℕ} {pending : List RecordBatch}
    (h : totalRows start pending = .ok total) :
    total = start + (pending.flatMap RecordBatch.rows).length := by
  induction pending generalizing start with
  | nil => exact (Except.ok.inj h).symm
  | cons batch pending ih =>
    simp only [totalRows, bind_eq_ok, checkedAdd_eq_ok] at h
    obtain ⟨_, ⟨rfl, _⟩, h⟩ := h
    rw [ih h, List.flatMap_cons, List.length_append, RecordBatch.numRows]
    omega

theorem advances_claimForPending (t : Transaction) (faults : ℕ → ReservationFaults) :
    Effect.Within (Advances names) (claimForPending t faults) :=
  advances_bind (advances_lift _) fun _ => advances_claimRowIds names _ faults

/-- The ids claimed are as many as rows, and all new. -/
theorem claimForPending_eq_ok {faults : ℕ → ReservationFaults}
    (h : claimForPending t faults d = (.ok range, d')) :
    d.nextRowId ≤ range.base ∧ range.len = t.rows.length ∧
      range.base + range.len = d'.nextRowId := by
  unfold claimForPending at h
  simp only [Effect.bind_eq_ok, Effect.lift_apply, Prod.mk.injEq] at h
  obtain ⟨total, _, ⟨htotal, rfl⟩, h⟩ := h
  obtain ⟨hbase, hlen, hend, _⟩ := (claimRowIds_spec h).2.range range rfl
  have := totalRows_eq_ok htotal
  exact ⟨hbase, by rw [hlen, Transaction.rows]; omega, hend⟩

theorem claimForPending_lt {faults : ℕ → ReservationFaults}
    (h : claimForPending t faults d = (.ok range, d')) : range.base + range.len < u64Bound := by
  unfold claimForPending at h
  simp only [Effect.bind_eq_ok, Effect.lift_apply, Prod.mk.injEq] at h
  obtain ⟨_, _, ⟨-, rfl⟩, h⟩ := h
  obtain ⟨-, -, hend, hlt⟩ := (claimRowIds_spec h).2.range range rfl
  rwa [hend]

/-! ### The files -/

theorem advances_writePendingBatches (P : Platform) (pending : List RecordBatch) (attempt : ℕ)
    (range : RowIdRange) (ts : ℤ) (inputs : ℕ → FileInput) :
    Effect.Within (Advances (ofAttempt attempt))
      (writePendingBatches P pending attempt range ts inputs) := by
  intro d
  have hwithin : Effect.Within (WritesOnly (ofAttempt attempt))
      (writePendingBatches P pending attempt range ts inputs) := by
    refine within_bind (fun d => ?_) fun _ => within_bind (within_lift _) fun _ => within_pure _
    exact (within_writeBatchesFrom P attempt ts inputs 0 range.base pending d).mono
      fun n ⟨_, _, hn⟩ => by rw [hn]; rfl
  exact (hwithin d).advances

theorem writePendingBatches_eq_ok (hw : WellNamed t.schema) (hst : t.Staged) {ts : ℤ}
    {inputs : ℕ → FileInput}
    (h : writePendingBatches P t.pending attempt range ts inputs d = (.ok written, d')) :
    ∃ files, files.map Prod.fst = written.files ∧
      (∀ f ∈ files, d'.store.get (.data f.1.name) = some (.rows f.2)) ∧
      FilesWritten P t.schema attempt ts 0 range.base t.pending files written.inserts ∧
      written.zoneMap = zoneMapOf (files.map fun f => f.1.stats) := by
  unfold writePendingBatches at h
  simp only [Effect.bind_eq_ok, Effect.lift_apply, Effect.pure_apply, Prod.mk.injEq] at h
  obtain ⟨⟨rounds, last⟩, _, hrounds, _, _, ⟨_, rfl⟩, hwritten, rfl⟩ := h
  obtain rfl := Except.ok.inj hwritten
  obtain ⟨files, hfiles, hstored, _, hspec⟩ := writeBatchesFrom_spec hw hst.batches hrounds
  refine ⟨files, hfiles, hstored, hspec, ?_⟩
  rw [← hfiles, List.map_map]
  rfl

/-! ### The segment -/

theorem advances_indexWritten (P : Platform) (attempt : ℕ) (written : WrittenFiles)
    (faults : WriteFaults) :
    Effect.Within (Advances (ofAttempt attempt)) (indexWritten P attempt written faults) := by
  intro d
  have hwithin : Effect.Within (WritesOnly (ofAttempt attempt))
      (indexWritten P attempt written faults) := by
    refine within_bind (within_reads _) fun _ => within_bind (within_lift _) fun _ =>
      within_bind (fun d => ?_) fun _ => within_bind (within_localCall _ _) fun _ => within_pure _
    exact (within_buildAndWriteSegment P attempt _ _ _ d).mono fun n hn => by rw [hn]; rfl
  exact (hwithin d).advances

theorem indexWritten_eq_ok {faults : WriteFaults} {segment : Option PublishedSegment}
    (h : indexWritten P attempt written faults d = (.ok segment, d')) :
    (∀ n, n ≠ .segment attempt → d'.store.get (.data n) = d.store.get (.data n)) ∧
      (segment = none ↔ written.inserts = []) ∧ ∀ p ∈ segment,
        SegmentWritten attempt written.inserts written.zoneMap p ∧
          d'.store.get (.data p.entry.name) = some (.segment p.reader) := by
  unfold indexWritten localCall at h
  simp only [Effect.bind_eq_ok, Effect.lift_apply, Effect.reads_apply, Effect.pure_apply,
    Prod.mk.injEq] at h
  obtain ⟨_, _, ⟨_, rfl⟩, _, _, ⟨_, rfl⟩, segment', d₁, hbuild, _, _, ⟨_, rfl⟩, hseg, rfl⟩ := h
  obtain rfl := Except.ok.inj hseg
  have hwithin := (within_buildAndWriteSegment P attempt written.inserts written.zoneMap
    faults.segment).of_eq hbuild
  exact ⟨fun n hn => hwithin.data_eq hn, buildAndWriteSegment_spec hbuild⟩

end StrataDB.Txn
