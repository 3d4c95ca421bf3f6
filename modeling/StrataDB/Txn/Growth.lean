import StrataDB.Txn.Safety

/-! What one step does to the record and to the store: it adds one version, or
writes under new names, or deletes one object, or leaves both alone. -/

namespace StrataDB.Txn.System

open Lib Arrow Index Storage

variable {P : Platform} {s s' : System}

/-! ### Publications -/

/-- A label publishes a snapshot with its catalog on top of the current one. -/
inductive Publishes (P : Platform) (d : Dataset) (cat : Catalog) :
    Label → Snapshot → Catalog → Prop
  | commit {id : ℕ} {fault : Fault} {t : Transaction} {ts : ℤ} {attempt base : ℕ}
      {files : List (DataFileEntry × RecordBatch)} {inserts : List VectorInsert}
      {segment : Option PublishedSegment} :
    Commits P d cat t ts attempt base files inserts segment →
    Publishes P d cat (.publish id fault) (committed d t ts files segment)
      (cat.extend files segment)
  | compaction {clock : Option ℕ} {faults : CompactionFaults} {d₁ : Dataset} {ts : ℤ}
      {files : List (DataFileEntry × RecordBatch)} {segment : Option PublishedSegment} :
    Compacts P d d₁ cat files segment →
    Publishes P d cat (.compact clock faults) (compacted d d₁ ts files segment)
      (Catalog.fresh files segment)
  | migration {migration : SchemaMigration} {clock : Option ℕ} {faults : MigrationFaults}
      {d₁ : Dataset} {column : Field} {ts : ℤ} {cat' : Catalog} :
    Migrates P d d₁ cat column cat' → cat'.MetadataKept (withColumn d.current.schema column) →
    Publishes P d cat (.migrate migration clock faults) (migrated d column ts cat') cat'

/-- The names are those of no published object. -/
def Unlisted (s : System) (names : ObjectName → Prop) : Prop :=
  ∀ g ∈ s.history, ∀ n ∈ g.snapshot.manifest.objectNames, ¬ names n

/-- A step that adds one version to the record. -/
structure Grows (P : Platform) (s s' : System) (label : Label) (new : Publication)
    (cat cat' : Catalog) : Prop where
  history : s'.history = s.history ++ [new]
  source : s.dataset.current.Valid P cat
  source_stored : cat.StoredIn s.dataset.store
  publishes : Publishes P s.dataset cat label new.snapshot cat'
  valid : new.snapshot.Valid P cat'
  stored : cat'.StoredIn new.store
  dataset : ∃ names d writeSet, Advances names s.dataset d ∧ s.Unlisted names ∧
    s'.dataset = d.published new.snapshot writeSet
  store : new.store = s'.dataset.store
  remaining : s'.executor.remaining = []

/-- What a step that publishes nothing does to the store. -/
inductive StoreStep (s s' : System) : Prop
  | kept : s'.dataset.store = s.dataset.store →
    s.dataset.nextRowId ≤ s'.dataset.nextRowId → StoreStep s s'
  | advanced {names : ObjectName → Prop} : Advances names s.dataset s'.dataset →
    s.Unlisted names → StoreStep s s'
  | erased {key : Key} {size : ℕ} {rest : List Candidate} :
    s.executor = .deleting (.ok (key, size) :: rest) →
    s'.dataset.store = s.dataset.store.erase key →
    s'.dataset.nextRowId = s.dataset.nextRowId → StoreStep s s'

theorem Executor.remaining_of_isIdle {executor : Executor} (h : executor.isIdle = true) :
    executor.remaining = [] := by
  cases executor <;> first | rfl | cases h

theorem Executor.remaining_after_publication (ok : Bool) :
    Executor.remaining (if ok then .compacted else .idle) = [] := by
  cases ok <;> rfl

theorem unlisted_false : s.Unlisted fun _ => False := fun _ _ _ _ h => h

/-! ### Commits -/

variable {id : ℕ} {label : Label} {α : Type} {clock : Option ℕ}

/-- A part of a commit is either a preparation, which writes under its own names
only and fails definitely if it fails, or the publication. -/
theorem Move.commit_cases (h : Move P s label s') (hlabel : label.commits = some id) :
    (∃ (α : Type) (txn : Transaction) (stage : Stage) (action : Action α) (next : α → Stage)
        (names : ObjectName → Prop), s.txns[id]? = some ⟨txn, stage⟩ ∧
        (∀ n, names n → ∃ attempt, stage.attempt? = some attempt ∧ n.attempt? = some attempt) ∧
        Effect.Within (Advances names) action ∧ DefiniteAction action ∧
        (∀ a, (next a).preparing = true) ∧ s' = commitStep s id txn action next) ∨
      ∃ txn ts claim files segment fault r d,
        s.txns[id]? = some ⟨txn, .prepared ts claim files segment⟩ ∧
        (∃ other, label = .publish other fault) ∧
        publishCommit P txn ts files segment fault s.dataset = (r, d) ∧
        s' = { s with
          dataset := d
          txns := s.txns.set id ⟨txn, .finished r⟩
          history := s.record d (txn.event id (rowIdBase claim) ts) } := by
  have hnone : ∀ (stage : Stage) n, False →
      ∃ attempt, stage.attempt? = some attempt ∧ ObjectName.attempt? n = some attempt :=
    fun _ _ hn => hn.elim
  cases h with
  | start hid _ =>
    cases hlabel
    exact .inl ⟨_, _, _, _, _, fun _ => False, hid, hnone _, advances_issueTimestamp _ _,
      definite_issueTimestamp _, fun _ => rfl, rfl⟩
  | skip hid _ =>
    cases hlabel
    exact .inl ⟨Unit, _, _, pure (), fun _ => .prepared _ none [] none, fun _ => False, hid,
      hnone _, .pure (Advances.refl _) _, .pure _, fun _ => rfl, rfl⟩
  | number hid =>
    cases hlabel
    exact .inl ⟨_, _, _, _, _, fun _ => False, hid, hnone _, advances_takeAttempt _ _ _,
      definite_takeAttempt _ _, fun _ => rfl, rfl⟩
  | claim hid =>
    cases hlabel
    exact .inl ⟨_, _, _, _, _, fun _ => False, hid, hnone _, advances_claimForPending _ _ _,
      definite_claimForPending _ _, fun _ => rfl, rfl⟩
  | write hid =>
    cases hlabel
    exact .inl ⟨_, _, _, _, _, _, hid, fun _ hn => ⟨_, rfl, hn⟩,
      advances_writePendingBatches _ _ _ _ _ _, definite_writePendingBatches _ _ _ _ _ _,
      fun _ => rfl, rfl⟩
  | index hid =>
    cases hlabel
    exact .inl ⟨_, _, _, _, _, _, hid, fun _ hn => ⟨_, rfl, hn⟩, advances_indexWritten _ _ _ _,
      definite_indexWritten _ _ _ _, fun _ => rfl, rfl⟩
  | publish hid hrun =>
    cases hlabel
    exact .inr ⟨_, _, _, _, _, _, _, _, hid, ⟨_, rfl⟩, hrun, rfl⟩
  | stage h _ _ | refuse h | plan h _ => cases label <;> cases hlabel <;> cases h
  | _ => cases hlabel

theorem commitStep_advances (s : System) (id : ℕ) (txn : Transaction) {action : Action α}
    (next : α → Stage) {names : ObjectName → Prop} (hadv : Effect.Within (Advances names) action) :
    (commitStep s id txn action next).history = s.history ∧
      Advances names s.dataset (commitStep s id txn action next).dataset := by
  unfold commitStep
  split
  · rename_i hrun
    exact ⟨rfl, hadv.of_eq hrun⟩
  · rename_i hrun
    exact ⟨rfl, hadv.of_eq hrun⟩

@[simp] theorem commitStep_executor (s : System) (id : ℕ) (txn : Transaction) (action : Action α)
    (next : α → Stage) : (commitStep s id txn action next).executor = s.executor := by
  unfold commitStep
  split <;> rfl

/-- A step either adds a version, or keeps the record and changes the store in
one of three ways. -/
def StepEffect (P : Platform) (s s' : System) (label : Label) : Prop :=
  (∃ new cat cat', Grows P s s' label new cat cat') ∨
    (s'.history = s.history ∧ StoreStep s s')

/-- The publication of a prepared transaction commits it on top of the current version,
or changes nothing. -/
theorem Inv.publishCommit_effect (h : Inv P s) {txn : Transaction} {ts : ℤ}
    {claim : Option (ℕ × RowIdRange)} {entries : List DataFileEntry}
    {segment : Option PublishedSegment} {fault : Fault} {r : Except TxnError Unit} {d : Dataset}
    (hid : s.txns[id]? = some ⟨txn, .prepared ts claim entries segment⟩)
    (hrun : Txn.publishCommit P txn ts entries segment fault s.dataset = (r, d)) :
    (∃ cat attempt files inserts,
      Commits P s.dataset cat txn ts attempt (rowIdBase claim) files inserts segment ∧
        cat.StoredIn s.dataset.store ∧
        d = s.dataset.published (committed s.dataset txn ts files segment) txn.writeSet ∧
        (committed s.dataset txn ts files segment).Valid P (cat.extend files segment) ∧
        (cat.extend files segment).StoredIn d.store) ∨ d = s.dataset := by
  have hsound := h.txns _ (List.mem_of_getElem? hid)
  obtain ⟨attempt, files, inserts, rfl, hfiles, hsegment, hprep, hnil, hclaim⟩ := hsound.written
  obtain ⟨last, cat, _, _, _, hv, _, hstored⟩ := h.recorded.current_valid
  rcases publishCommit_cases h.recorded.latest.free hrun with
    ⟨_, rfl, hdec, hcheck, hdim, _⟩ | ⟨_, rfl⟩
  · have hc := h.commits hid hprep hnil hclaim hv hcheck hdim
    exact .inl ⟨cat, attempt, files, inserts, hc, hstored, rfl, hc.valid hdec,
      (hstored.extend hfiles hsegment).insert _⟩
  · exact .inr rfl

theorem Inv.commit_effect (h : Inv P s) (hm : Move P s label s')
    (hlabel : label.commits = some id) : StepEffect P s s' label := by
  rcases hm.commit_cases hlabel with
    ⟨α, txn, stage, action, next, names, hid, hnames, hadv, _, _, rfl⟩ |
    ⟨txn, ts, claim, entries, segment, fault, r, d, hid, ⟨other, rfl⟩, hrun, rfl⟩
  · obtain ⟨hhist, hd⟩ := commitStep_advances s id txn next hadv
    refine .inr ⟨hhist, .advanced hd fun g hg n hn hown => ?_⟩
    obtain ⟨attempt, hat, hnat⟩ := hnames n hown
    exact (h.txns _ (List.mem_of_getElem? hid)).names attempt hat g hg n hn hnat
  · rcases h.publishCommit_effect hid hrun with
      ⟨cat, attempt, files, inserts, hc, hstored, rfl, hvalid, hnew⟩ | rfl
    · exact .inl ⟨_, cat, _, record_published rfl _, hc.latest, hstored, .commit hc, hvalid, hnew,
        ⟨_, _, _, .refl (fun _ => False) _, unlisted_false, rfl⟩, rfl,
        Executor.remaining_of_isIdle (h.idle hid rfl)⟩
    · exact .inr ⟨record_of_current_eq rfl _, .kept rfl le_rfl⟩

variable {d : Dataset}

theorem Inv.compact_effect (h : Inv P s) {faults : CompactionFaults}
    {r : Except TxnError CompactionReport}
    (hrun : publishCompaction P clock faults s.dataset = (r, d)) :
    StepEffect P s { s with
      dataset := d
      executor := if r.isOk then .compacted else .idle
      history := s.record d .compaction } (.compact clock faults) := by
  obtain ⟨last, cat, _, _, _, hv, _, hstored⟩ := h.recorded.current_valid
  have hfree : s.Unlisted (ofAttempt s.dataset.writeAttemptCounter) :=
    fun g hg n hn => h.recorded.not_nextAttempt hg hn
  rcases publishCompaction_cases hv hstored h.recorded.rowIds_le h.recorded.latest.free hrun
    with ⟨d₁, ts, files, segment, hc, _, rfl, hvalid⟩ | ⟨_, hadv⟩
  · exact .inl ⟨_, cat, _, record_published rfl _, hv, hstored, .compaction hc, hvalid,
      hc.storedIn.insert _, ⟨_, _, _, hc.advances, hfree, rfl⟩, rfl,
      Executor.remaining_after_publication _⟩
  · exact .inr ⟨record_of_current_eq hadv.current_eq _, .advanced hadv hfree⟩

theorem Inv.migrate_effect (h : Inv P s) (hquiet : s.quiet = true) {migration : SchemaMigration}
    {faults : MigrationFaults} {r : Except TxnError SchemaMigrationResult}
    (hrun : migrateSchema P migration clock faults s.dataset = (r, d)) :
    StepEffect P s { s with
      dataset := d
      history := s.record d (.migration (migration.addedNullableColumn.getD rowIdField)) }
      (.migrate migration clock faults) := by
  obtain ⟨last, cat, _, _, _, hv, _, hstored⟩ := h.recorded.current_valid
  have hfree : s.Unlisted (ofMigration (s.dataset.current.version + 1)) :=
    fun g hg n hn => h.recorded.not_nextMigration hg hn
  rcases migrateSchema_cases hv hstored h.recorded.latest.free hrun with
    ⟨d₁, column, ts, cat', hm, _, rfl, rfl, hvalid, hmeta⟩ | ⟨_, hadv⟩
  · exact .inl ⟨_, cat, cat', record_published rfl _, hv, hstored, .migration hm hmeta,
      hvalid, hm.stored.insert _, ⟨_, _, _, hm.advances, hfree, rfl⟩, rfl,
      Executor.remaining_of_isIdle (quiet_iff.mp hquiet).1⟩
  · exact .inr ⟨record_of_current_eq hadv.current_eq _, .advanced hadv hfree⟩

theorem planStep_effect (s : System) (plan : Except TxnError (List Candidate)) (label : Label) :
    StepEffect P s (planStep s plan) label := by
  unfold planStep
  split <;> exact .inr ⟨rfl, .kept rfl le_rfl⟩

theorem Inv.step_effect (h : Inv P s) (hs : systemStep P s label = some s') :
    StepEffect P s s' label := by
  cases Move.of_step hs with
  | start _ _ | skip _ _ | number _ | claim _ | write _ | index _ | publish _ _ =>
    exact h.commit_effect (Move.of_step hs) rfl
  | compact _ hrun => exact h.compact_effect hrun
  | migrate hquiet hrun => exact h.migrate_effect hquiet hrun
  | plan _ _ => exact planStep_effect _ _ _
  | deleteNext hexec hrun =>
    rcases deleteObject_cases hrun with rfl | rfl
    · exact .inr ⟨rfl, .kept rfl le_rfl⟩
    · exact .inr ⟨rfl, .erased hexec rfl rfl⟩
  | reopen hs =>
    unfold reopenStep at hs
    split at hs <;> cases hs
    rename_i d hopen
    exact .inr ⟨rfl, .kept (h.opened hopen).1 (h.opened hopen).2.2.2.2⟩
  | _ => exact .inr ⟨rfl, .kept rfl le_rfl⟩

/-! ### Plans -/

theorem planStep_remaining (s : System) (plan : Except TxnError (List Candidate)) :
    (planStep s plan).executor.remaining = [] ∨
      ∃ candidates, plan = .ok candidates ∧ (planStep s plan).executor.remaining = candidates := by
  unfold planStep
  split
  · rename_i candidates
    exact .inr ⟨candidates, rfl, rfl⟩
  · exact .inl rfl

/-- What is left to delete was left before, or the label planned it. -/
theorem step_remaining (hs : systemStep P s label = some s') {c : Candidate}
    (hc : c ∈ s'.executor.remaining) :
    c ∈ s.executor.remaining ∨ ∃ candidates, planOf P s label = some (.ok candidates) ∧
      c ∈ candidates := by
  cases Move.of_step hs with
  | @plan _ plan hplan _ =>
    rcases planStep_remaining s plan with hnil | ⟨candidates, rfl, hrem⟩
    · rw [hnil] at hc
      cases hc
    · exact .inr ⟨candidates, hplan, hrem ▸ hc⟩
  | compact _ _ =>
    rw [Executor.remaining_after_publication] at hc
    cases hc
  | deleteNext hexec _ =>
    refine .inl ?_
    rw [hexec]
    dsimp only at hc
    split at hc
    · exact List.mem_cons_of_mem _ hc
    · cases hc
  | finish _ | abort => cases hc
  | reopen hs =>
    unfold reopenStep at hs
    split at hs <;> cases hs
    cases hc
  | start _ _ | number _ | claim _ | write _ | index _ =>
    rw [commitStep_executor] at hc
    exact .inl hc
  | _ => exact .inl hc

end StrataDB.Txn.System
