import StrataDB.Txn.System

/-! What a step of the system does, as a relation: for each label what makes the step
possible and the system after it. Every fact about all steps is a case analysis of it. -/

namespace StrataDB.Txn

open Lib Arrow Index Storage

/-- The commit whose part the label is. -/
def Label.commits : Label → Option ℕ
  | .start id _ => some id
  | .number id _ => some id
  | .claim id _ => some id
  | .write id _ => some id
  | .index id _ => some id
  | .publish id _ => some id
  | _ => none

/-- The operation that a label stages, and in which transaction. -/
def Label.stages : Label → Option (ℕ × (Transaction → Except TxnError Transaction))
  | .insert id batch => some (id, fun t => t.insert batch)
  | .delete id rowId => some (id, fun t => t.delete rowId)
  | .update id rowId batch => some (id, fun t => t.update rowId batch)
  | _ => none

namespace System

/-- The deletions a label plans. -/
def planOf (P : Platform) (s : System) : Label → Option (Except TxnError (List Candidate))
  | .reclaim => some (reclaimPlan P s.dataset.current.schema s.live s.dataset.store)
  | .prune keep => some (prunePlan P s.dataset.store
      (buildManifestPruneAuthority P keep s.dataset.current s.held s.dataset.store))
  | .pruneByAge keep maxAgeUs clock => some (prunePlan P s.dataset.store
      (buildAgeManifestPruneAuthority P keep maxAgeUs clock s.dataset.current s.held
        s.dataset.store))
  | .vacuum => some (vacuumPlan P s.dataset.current s.held s.dataset.store)
  | _ => none

/-- The step with this label leads to this system. -/
inductive Move (P : Platform) (s : System) : Label → System → Prop
  | begin : Move P s .begin { s with txns := s.txns ++ [⟨Transaction.begin s.dataset, .staging⟩] }
  | stage {label : Label} {id : ℕ} {op : Transaction → Except TxnError Transaction}
      {txn txn' : Transaction} (hlabel : label.stages = some (id, op))
      (hid : s.txns[id]? = some ⟨txn, .staging⟩) (hop : op txn = .ok txn') :
      Move P s label (s.setTxn id ⟨txn', .staging⟩)
  | refuse {label : Label} (hlabel : label.stages.isSome) : Move P s label s
  | rollback {id : ℕ} {txn : Transaction} (hid : s.txns[id]? = some ⟨txn, .staging⟩) :
      Move P s (.rollback id) (s.setTxn id ⟨txn, .dropped⟩)
  | acquire : Move P s .acquire { s with holders := s.holders ++ [s.dataset.current] }
  | clone {holder : ℕ} {b : Snapshot} (hb : s.holders[holder]? = some b) :
      Move P s (.clone holder) { s with holders := s.holders ++ [b] }
  | drop (holder : ℕ) : Move P s (.drop holder) { s with holders := s.holders.eraseIdx holder }
  | reopen {s' : System} (h : reopenStep P s = some s') : Move P s .reopen s'
  | start {id : ℕ} {clock : Option ℕ} {txn : Transaction}
      (hid : s.txns[id]? = some ⟨txn, .staging⟩) (hidle : s.executor.isIdle = true) :
      Move P s (.start id clock) (commitStep s id txn (issueTimestamp clock) .started)
  | skip {id : ℕ} {faults : WriteFaults} {txn : Transaction} {ts : ℤ}
      (hid : s.txns[id]? = some ⟨txn, .started ts⟩) (hnil : txn.pending = []) :
      Move P s (.number id faults) (s.setTxn id ⟨txn, .prepared ts none [] none⟩)
  | number {id : ℕ} {faults : WriteFaults} {txn : Transaction} {ts : ℤ}
      (hid : s.txns[id]? = some ⟨txn, .started ts⟩) :
      Move P s (.number id faults) (commitStep s id txn (takeAttempt txn faults) (.numbered ts))
  | claim {id : ℕ} {faults : ℕ → ReservationFaults} {txn : Transaction} {ts : ℤ} {attempt : ℕ}
      (hid : s.txns[id]? = some ⟨txn, .numbered ts attempt⟩) :
      Move P s (.claim id faults)
        (commitStep s id txn (claimForPending txn faults) (.claimed ts attempt))
  | write {id : ℕ} {faults : WriteFaults} {txn : Transaction} {ts : ℤ} {attempt : ℕ}
      {range : RowIdRange} (hid : s.txns[id]? = some ⟨txn, .claimed ts attempt range⟩) :
      Move P s (.write id faults) (commitStep s id txn
        (writePendingBatches P txn.pending attempt range ts faults.files)
        (.written ts attempt range))
  | index {id : ℕ} {faults : WriteFaults} {txn : Transaction} {ts : ℤ} {attempt : ℕ}
      {range : RowIdRange} {files : WrittenFiles}
      (hid : s.txns[id]? = some ⟨txn, .written ts attempt range files⟩) :
      Move P s (.index id faults) (commitStep s id txn (indexWritten P attempt files faults)
        (.prepared ts (some (attempt, range)) files.files))
  | publish {id : ℕ} {fault : Fault} {txn : Transaction} {ts : ℤ}
      {claim : Option (ℕ × RowIdRange)} {files : List DataFileEntry}
      {segment : Option PublishedSegment} {r : Except TxnError Unit} {d : Dataset}
      (hid : s.txns[id]? = some ⟨txn, .prepared ts claim files segment⟩)
      (hrun : publishCommit P txn ts files segment fault s.dataset = (r, d)) :
      Move P s (.publish id fault) { s with
        dataset := d
        txns := s.txns.set id ⟨txn, .finished r⟩
        history := s.record d
          (.commit id txn.base.version txn.writeSet txn.pending (rowIdBase claim) ts) }
  | compact {clock : Option ℕ} {faults : CompactionFaults} {r : Except TxnError CompactionReport}
      {d : Dataset} (hquiet : s.quiet = true)
      (hrun : publishCompaction P clock faults s.dataset = (r, d)) :
      Move P s (.compact clock faults) { s with
        dataset := d
        executor := if r.isOk then .compacted else .idle
        history := s.record d .compaction }
  | plan {label : Label} {plan : Except TxnError (List Candidate)}
      (hplan : planOf P s label = some plan)
      (hfree : s.quiet = true ∨ s.executor.isIdle = false) : Move P s label (planStep s plan)
  | finish (fault : Fault) : Move P s (.deleteNext fault) { s with executor := .idle }
  | deleteNext {fault : Fault} {key : Key} {size : ℕ} {rest : List Candidate}
      {r : Except TxnError Unit} {d : Dataset}
      (hexec : s.executor = .deleting (.ok (key, size) :: rest))
      (hrun : deleteObject key fault s.dataset = (r, d)) :
      Move P s (.deleteNext fault) { s with
        dataset := d
        executor := if r.isOk then .deleting rest else .idle }
  | abort : Move P s .abort { s with executor := .idle }
  | migrate {migration : SchemaMigration} {clock : Option ℕ} {faults : MigrationFaults}
      {r : Except TxnError SchemaMigrationResult} {d : Dataset} (hquiet : s.quiet = true)
      (hrun : migrateSchema P migration clock faults s.dataset = (r, d)) :
      Move P s (.migrate migration clock faults) { s with
        dataset := d
        history := s.record d (.migration (migration.addedNullableColumn.getD rowIdField)) }

variable {P : Platform} {s s' : System} {label : Label}

theorem Move.of_stageStep {id : ℕ} {op : Transaction → Except TxnError Transaction}
    (hlabel : label.stages = some (id, op)) (hs : stageStep s id op = some s') :
    Move P s label s' := by
  unfold stageStep at hs
  split at hs
  · split at hs <;> cases hs
    · exact .stage hlabel ‹_› ‹_›
    · exact .refuse (by rw [hlabel]; rfl)
  · cases hs

theorem Move.of_step (hs : systemStep P s label = some s') : Move P s label s' := by
  cases label with
  | begin =>
    cases hs
    exact .begin
  | insert _ _ | delete _ _ | update _ _ _ => exact .of_stageStep rfl hs
  | rollback _ =>
    simp only [systemStep] at hs
    split at hs <;> cases hs
    exact .rollback ‹_›
  | acquire =>
    cases hs
    exact .acquire
  | clone _ =>
    obtain ⟨_, hb, rfl⟩ := Option.map_eq_some_iff.mp hs
    exact .clone hb
  | drop _ =>
    cases hs
    exact .drop _
  | reopen => exact .reopen hs
  | start _ _ =>
    simp only [systemStep, commitPart] at hs
    split at hs
    · split at hs <;> cases hs
      exact .start ‹_› ‹_›
    · cases hs
  | number _ _ =>
    simp only [systemStep, commitPart] at hs
    split at hs
    · split at hs <;> cases hs
      · exact .skip ‹_› ‹_›
      · exact .number ‹_›
    · cases hs
  | claim _ _ =>
    simp only [systemStep, commitPart] at hs
    split at hs <;> cases hs
    exact .claim ‹_›
  | write _ _ =>
    simp only [systemStep, commitPart] at hs
    split at hs <;> cases hs
    exact .write ‹_›
  | index _ _ =>
    simp only [systemStep, commitPart] at hs
    split at hs <;> cases hs
    exact .index ‹_›
  | publish _ _ =>
    simp only [systemStep, commitPart] at hs
    split at hs <;> cases hs
    exact .publish ‹_› rfl
  | compact _ _ =>
    simp only [systemStep, lifecycleStep] at hs
    split at hs <;> cases hs
    exact .compact ‹_› rfl
  | reclaim =>
    simp only [systemStep, lifecycleStep] at hs
    split at hs <;> cases hs
    rename_i hexec
    exact .plan rfl (.inr (by rw [hexec]; rfl))
  | prune _ | pruneByAge _ _ _ | vacuum =>
    simp only [systemStep, lifecycleStep] at hs
    split at hs <;> cases hs
    exact .plan rfl (.inl ‹_›)
  | deleteNext _ =>
    simp only [systemStep, lifecycleStep] at hs
    split at hs <;> cases hs
    · exact .finish _
    · exact .finish _
    · exact .deleteNext ‹_› rfl
  | abort =>
    simp only [systemStep, lifecycleStep] at hs
    split at hs <;> cases hs
    exact .abort
  | migrate _ _ _ =>
    simp only [systemStep, lifecycleStep] at hs
    split at hs <;> cases hs
    exact .migrate ‹_› rfl

end System

end StrataDB.Txn
