import StrataDB.Txn.Ceiling

/-! Publication timestamps. A handle never issues one below its last, but the last is
kept only in memory: a new handle starts from the high water of the manifest, which
commits and the migration raise and the creation and compactions do not. So what a
reopened handle issues can be below the timestamp of a version published before. -/

namespace StrataDB.Txn

open Lib Arrow Index Storage

/-- The timestamp a version was published with. -/
def Publication.committedAt (g : Publication) : ℤ := g.snapshot.manifest.committedAtUs

/-- The greatest timestamp of the commits up to a version. -/
def Publication.highWater (g : Publication) : ℤ := g.snapshot.manifest.commitTimeHighWater

/-- The timestamp a commit in progress was given. -/
def Stage.timestamp? : Stage → Option ℤ
  | .started ts => some ts
  | .numbered ts _ => some ts
  | .claimed ts _ _ => some ts
  | .written ts _ _ _ => some ts
  | .prepared ts _ _ _ => some ts
  | _ => none

/-! ### High water and rows -/

variable {ts : ℤ} {r : Row} {P : Platform} {clock : Option ℕ} {d d' : Dataset} {fault : Fault}

theorem storedTimestamp_staged {rows : List Row} {base : ℕ} (hr : r ∈ stagedRows rows base ts) :
    storedTimestamp r = ts := by
  obtain ⟨p, -, rfl⟩ := List.mem_map.mp hr
  simp [storedTimestamp, Row.cell, Cell.toTimestamp]

theorem storedTimestamp_migratedRow {schema : Schema}
    (h : fitsFields (fullFields schema) r = true) :
    storedTimestamp (migratedRow r) = storedTimestamp r := by
  rw [migratedRow_eq h]
  simp [storedTimestamp, Row.cell, Cell.toTimestamp]

/-- All catalogs of a snapshot on one store have the same files. -/
theorem Snapshot.Valid.files_unique {s : Snapshot} {cat cat' : Catalog} {store : Store}
    (h : s.Valid P cat) (h' : s.Valid P cat') (hs : cat.StoredIn store)
    (hs' : cat'.StoredIn store) : ∀ f ∈ cat.files, f ∈ cat'.files := by
  intro f hf
  have hentry : f.1 ∈ cat'.files.map Prod.fst := by
    rw [← h'.files_eq, h.files_eq]
    exact List.mem_map_of_mem hf
  obtain ⟨f', hf', heq⟩ := List.mem_map.mp hentry
  have hget := hs'.files f' hf'
  rw [heq, hs.files f hf] at hget
  have hbatch : f.2 = f'.2 := Object.rows.inj (Option.some.inj hget)
  rwa [show f = f' from Prod.ext heq.symm hbatch]

/-- The times of a created handle: the manifest's high water knows nothing of its
timestamp. -/
theorem createDataset_times {store store' : Store} {schema : Schema} {capacity : ℕ}
    {faults : CreateFaults}
    (h : createDataset P store schema capacity clock faults = (store', .ok d)) :
    d.current.manifest.commitTimeHighWater = 0 ∧
      d.current.manifest.committedAtUs = d.lastIssuedTimestamp := by
  unfold createDataset at h
  dsimp only at h
  repeat' split at h
  all_goals cases h
  exact ⟨rfl, rfl⟩

/-! ### Publications -/

/-- The handle's last timestamp does not fall, and if another version is current then
its timestamp was issued. -/
def Stamps (d d' : Dataset) : Prop :=
  d.lastIssuedTimestamp ≤ d'.lastIssuedTimestamp ∧
    (d'.current = d.current ∨ d'.current.manifest.committedAtUs ≤ d'.lastIssuedTimestamp)

theorem publish_stamps {α : Type} {snapshot : Snapshot} {writeSet : List ℕ} {result : α}
    {r : Except TxnError α} (hissued : snapshot.manifest.committedAtUs ≤ d.lastIssuedTimestamp)
    (h : (publishCandidateManifest P snapshot.manifest fault >>=
      fun indeterminate => completeVisiblePublication snapshot writeSet indeterminate result) d =
      (r, d')) :
    Stamps d d' := by
  have hlink := publishCandidateManifest_eq P snapshot.manifest fault d
  rcases Effect.bind_cases h with ⟨indeterminate, d₁, hpub, hdone⟩ | ⟨e, hpub, -⟩
  · rw [hpub] at hlink
    obtain ⟨-, rfl⟩ := Prod.mk.inj hdone
    rw [show d₁ = _ from hlink]
    exact ⟨le_rfl, .inr hissued⟩
  · rw [hpub] at hlink
    rw [show d' = _ from hlink]
    exact ⟨le_rfl, .inl rfl⟩

theorem publishCommit_stamps {t : Transaction} {files : List DataFileEntry}
    {segment : Option PublishedSegment} {r : Except TxnError Unit}
    (hissued : ts ≤ d.lastIssuedTimestamp)
    (h : publishCommit P t ts files segment fault d = (r, d')) : Stamps d d' := by
  have hkeep : Stamps d d := ⟨le_rfl, .inl rfl⟩
  unfold publishCommit at h
  rw [Effect.reads_bind] at h
  rcases Effect.lift_bind_cases h with ⟨-, -, h⟩ | ⟨-, -, -, rfl⟩
  swap
  · exact hkeep
  rcases Effect.lift_bind_cases h with ⟨version, -, h⟩ | ⟨-, -, -, rfl⟩
  swap
  · exact hkeep
  rcases Effect.lift_bind_cases h with ⟨-, -, h⟩ | ⟨-, -, -, rfl⟩
  swap
  · exact hkeep
  exact publish_stamps hissued h

theorem publishCompaction_stamps {faults : CompactionFaults} {r : Except TxnError CompactionReport}
    (h : publishCompaction P clock faults d = (r, d')) : Stamps d d' := by
  have hle := (unreserving_publishCompaction P clock faults).of_eq h |>.issued_le
  unfold publishCompaction at h
  rcases Effect.bind_cases h with ⟨⟨snapshot, report⟩, d₁, hcand, hpub⟩ | ⟨e, hcand, -⟩
  · have hadv := advances_compactionCandidate P clock faults hcand
    have hissued : snapshot.manifest.committedAtUs ≤ d₁.lastIssuedTimestamp := by
      unfold compactionCandidate at hcand
      rw [Effect.reads_bind] at hcand
      simp only [Effect.bind_eq_ok, Effect.lift_apply, Effect.reads_apply, Effect.pure_apply,
        Prod.mk.injEq, Except.ok.injEq, localCall] at hcand
      obtain ⟨_, _, -, _, _, -, _, _, -, _, _, -, _, _, -, _, _, -, _, _, -, ts, d₂, hts,
        _, _, ⟨-, rfl⟩, ⟨rfl, -⟩, rfl⟩ := hcand
      rw [issueTimestamp_eq_ok hts]
      exact le_rfl
    obtain ⟨-, hcur⟩ := publish_stamps hissued hpub
    rw [hadv.current_eq] at hcur
    exact ⟨hle, hcur⟩
  · exact ⟨hle, .inl (advances_compactionCandidate P clock faults hcand).current_eq⟩

theorem migrateSchema_stamps {migration : SchemaMigration} {faults : MigrationFaults}
    {r : Except TxnError SchemaMigrationResult}
    (h : migrateSchema P migration clock faults d = (r, d')) : Stamps d d' := by
  have hle := (unreserving_migrateSchema P migration clock faults).of_eq h |>.issued_le
  unfold migrateSchema at h
  rcases Effect.bind_cases h with ⟨⟨snapshot, report⟩, d₁, hcand, hpub⟩ | ⟨e, hcand, -⟩
  · have hadv := advances_migrationCandidate P migration clock faults hcand
    have hissued : snapshot.manifest.committedAtUs ≤ d₁.lastIssuedTimestamp := by
      unfold migrationCandidate at hcand
      rw [Effect.reads_bind] at hcand
      simp only [Effect.bind_eq_ok, Effect.lift_apply, Effect.reads_apply, Effect.pure_apply,
        Prod.mk.injEq, Except.ok.injEq] at hcand
      obtain ⟨_, _, -, _, _, -, _, _, -, _, _, -, _, _, -, _, _, -, ts, d₂, hts,
        _, _, ⟨rfl, rfl⟩, _, _, ⟨-, rfl⟩, ⟨rfl, -⟩, rfl⟩ := hcand
      rw [issueTimestamp_eq_ok hts]
      exact le_rfl
    obtain ⟨-, hcur⟩ := publish_stamps hissued hpub
    rw [hadv.current_eq] at hcur
    exact ⟨hle, hcur⟩
  · exact ⟨hle, .inl (advances_migrationCandidate P migration clock faults hcand).current_eq⟩

/-! ### What the record says -/

namespace System

variable {P : Platform} {s s' : System}

/-- What the record says about time, whatever the clock did. -/
structure Dated (P : Platform) (s : System) : Prop where
  nonneg : ∀ g ∈ s.history, 0 ≤ g.highWater
  ordered : s.history.Pairwise fun g g' => g.highWater ≤ g'.highWater
  rows : ∀ g ∈ s.history, ∃ cat, g.snapshot.Valid P cat ∧ cat.StoredIn g.store ∧
    ∀ r ∈ cat.rows, storedTimestamp r ≤ g.highWater
  /-- An object that is listed is not replaced. -/
  objects : ∀ g ∈ s.history, ∀ n ∈ g.snapshot.manifest.objectNames, ∀ object,
    s.dataset.store.get (.data n) = some object → g.store.get (.data n) = some object

variable {cat : Catalog} {label : Label}

/-- A publication does not lower the high water, and its rows are below it. -/
theorem Publishes.dated {d : Dataset} {cat' : Catalog} {new : Snapshot}
    (h : Publishes P d cat label new cat')
    (hrows : ∀ r ∈ cat.rows, storedTimestamp r ≤ d.current.manifest.commitTimeHighWater) :
    d.current.manifest.commitTimeHighWater ≤ new.manifest.commitTimeHighWater ∧
      ∀ r ∈ cat'.rows, storedTimestamp r ≤ new.manifest.commitTimeHighWater := by
  cases h with
  | commit hc =>
    refine ⟨le_max_left _ _, fun r hr => ?_⟩
    rw [Catalog.rows, Catalog.extend, List.flatMap_append, List.mem_append] at hr
    rcases hr with hr | hr
    · exact (hrows r hr).trans (le_max_left _ _)
    · rw [hc.prepared.files.rows] at hr
      rw [storedTimestamp_staged hr]
      exact le_max_right _ _
  | compaction hc =>
    refine ⟨le_rfl, fun r hr => ?_⟩
    rw [hc.fresh_rows] at hr
    exact hrows r (List.mem_of_mem_filter hr)
  | migration hm _ =>
    refine ⟨le_max_left _ _, fun r hr => ?_⟩
    obtain ⟨f, hf, hrf⟩ := List.mem_flatMap.mp hr
    obtain ⟨p, hp, hfile⟩ := exists_left_of_forall₂ hm.files hf
    rw [hfile.rows] at hrf
    obtain ⟨r₀, hr₀, rfl⟩ := List.mem_map.mp hrf
    have hmem := List.fst_mem_of_mem_zipIdx hp
    rw [storedTimestamp_migratedRow ((hm.source.fileValid p.1 hmem).fits hr₀)]
    exact (hrows r₀ (List.mem_flatMap.mpr ⟨p.1, hmem, hr₀⟩)).trans (le_max_left _ _)

/-- The rows of the current version, on the store as it is now. -/
theorem Dated.current_rows (h : Dated P s) (hi : Inv P s) (hv : s.dataset.current.Valid P cat)
    (hs : cat.StoredIn s.dataset.store) :
    ∀ r ∈ cat.rows, storedTimestamp r ≤ s.dataset.current.manifest.commitTimeHighWater := by
  obtain ⟨last, hlast, hcur, hkept⟩ := hi.recorded.current
  obtain ⟨cat₀, hv₀, hs₀, hrows⟩ := h.rows last (List.mem_of_getLast? hlast)
  have hs₀ := hkept.storedIn hv₀ hs₀
  rw [hcur] at hv₀
  intro r hr
  obtain ⟨f, hf, hrf⟩ := List.mem_flatMap.mp hr
  have := hrows r (List.mem_flatMap.mpr ⟨f, hv.files_unique hv₀ hs hs₀ f hf, hrf⟩)
  rwa [Publication.highWater, hcur] at this

theorem Dated.le_current (h : Dated P s) (hi : Inv P s) {g : Publication} (hg : g ∈ s.history) :
    g.highWater ≤ s.dataset.current.manifest.commitTimeHighWater := by
  obtain ⟨last, hlast, hcur, -⟩ := hi.recorded.current
  rw [← hcur]
  obtain ⟨front, heq⟩ := List.getLast?_eq_some_iff.mp hlast
  have hordered := h.ordered
  rw [heq] at hordered hg
  rcases List.mem_append.mp hg with hg | hg
  · exact (List.pairwise_append.mp hordered).2.2 g hg last (List.mem_singleton_self _)
  · rw [List.mem_singleton.mp hg]
    rfl

theorem Dated.step (h : Dated P s) (hi : Inv P s) (hs : systemStep P s label = some s') :
    Dated P s' := by
  rcases hi.step_effect hs with ⟨new, cat, cat', hgrow⟩ | ⟨hhist, hstore⟩
  · obtain ⟨names, d, writeSet, hadv, hfree, hd⟩ := hgrow.dataset
    obtain ⟨hle, hrows⟩ :=
      hgrow.publishes.dated (h.current_rows hi hgrow.source hgrow.source_stored)
    have hold : ∀ g ∈ s.history, g.highWater ≤ new.highWater :=
      fun g hg => (h.le_current hi hg).trans hle
    have hget : ∀ n, s'.dataset.store.get (.data n) = d.store.get (.data n) := by
      intro n
      rw [hd]
      exact Store.get_insert_of_ne _ _ (by simp [Manifest.key])
    constructor
    all_goals rw [hgrow.history]
    · refine List.forall_mem_append.mpr ⟨h.nonneg, ?_⟩
      rw [List.forall_mem_singleton]
      obtain ⟨last, hlast, -⟩ := hi.recorded.current
      have hmem := List.mem_of_getLast? hlast
      exact (h.nonneg last hmem).trans (hold last hmem)
    · refine List.pairwise_append.mpr ⟨h.ordered, List.pairwise_singleton _ _, ?_⟩
      intro g hg g' hg'
      rw [List.mem_singleton.mp hg']
      exact hold g hg
    · refine List.forall_mem_append.mpr ⟨h.rows, ?_⟩
      rw [List.forall_mem_singleton]
      exact ⟨cat', hgrow.valid, hgrow.stored, hrows⟩
    · refine List.forall_mem_append.mpr ⟨fun g hg n hn object hobject => ?_, ?_⟩
      · rw [hget, hadv.data_eq n (hfree g hg n hn)] at hobject
        exact h.objects g hg n hn object hobject
      · rw [List.forall_mem_singleton, hgrow.store]
        exact fun _ _ _ hobject => hobject
  · refine ⟨by rw [hhist]; exact h.nonneg, by rw [hhist]; exact h.ordered,
      by rw [hhist]; exact h.rows, ?_⟩
    rw [hhist]
    intro g hg n hn object hobject
    refine h.objects g hg n hn object ?_
    cases hstore with
    | kept heq _ => rwa [heq] at hobject
    | advanced hadv hfree => rwa [hadv.data_eq n (hfree g hg n hn)] at hobject
    | erased _ heq _ =>
      rw [heq, Store.get_erase] at hobject
      split at hobject
      · cases hobject
      · exact hobject

theorem dated_of_reachable (h : (system P).Reachable s) : Dated P s := by
  refine h.invariant (fun s₀ h₀ => ?_) fun s _ s' hs hdated hstep =>
    hdated.step (inv_of_reachable hs) hstep
  obtain ⟨store, schema, capacity, clock, faults, store', d, hcreate, rfl⟩ := h₀
  have hzero := (createDataset_times hcreate).1
  have hvalid := (createDataset_spec hcreate).1.valid
  constructor
  all_goals simp only [System.created, List.forall_mem_singleton]
  · exact hzero.ge
  · exact List.pairwise_singleton _ _
  · exact ⟨Catalog.empty, hvalid, ⟨by simp [Catalog.empty], by simp [Catalog.empty]⟩,
      by simp [Catalog.empty, Catalog.rows]⟩
  · exact fun _ _ _ hobject => hobject

/-! ### Timestamps issued -/

theorem claimForPending_issued (t : Transaction) (faults : ℕ → ReservationFaults) (d : Dataset) :
    (claimForPending t faults d).2.lastIssuedTimestamp = d.lastIssuedTimestamp := by
  rcases hrun : claimForPending t faults d with ⟨r, d'⟩
  unfold claimForPending at hrun
  rcases Effect.lift_bind_cases hrun with ⟨total, -, hclaim⟩ | ⟨-, -, -, rfl⟩
  · rw [(claimRowIds_spec hclaim).1]
  · rfl

theorem Inv.reopen_times (hi : Inv P s) (hs : systemStep P s .reopen = some s') :
    s'.dataset.lastIssuedTimestamp = s.dataset.current.manifest.commitTimeHighWater ∧
      (∀ t ∈ s'.txns, t.stage.timestamp? = none) ∧ s'.history = s.history := by
  simp only [systemStep, reopenStep] at hs
  split at hs <;> cases hs
  rename_i d hopen
  obtain ⟨_, cat, -, -, -, hv, -, hstored⟩ := hi.recorded.current_valid
  obtain ⟨highest, hread, -⟩ := hi.recorded.durable.highWater
  obtain ⟨-, -, rfl⟩ := (openDataset_eq_ok hv hstored hi.recorded.latest hread).mp hopen
  refine ⟨rfl, fun t ht => ?_, rfl⟩
  obtain ⟨t₀, -, rfl⟩ := List.mem_map.mp ht
  split
  · rfl
  · rename_i halive
    revert halive
    cases t₀.stage <;> simp [Stage.alive, Stage.timestamp?]

/-- The last timestamp issued is not below those given to commits in progress and to
published versions. -/
structure Timed (s : System) : Prop where
  stages : ∀ t ∈ s.txns, ∀ ts, t.stage.timestamp? = some ts → ts ≤ s.dataset.lastIssuedTimestamp
  history : ∀ g ∈ s.history, g.committedAt ≤ s.dataset.lastIssuedTimestamp

namespace Timed

variable {d : Dataset} {id : ℕ} {α : Type} {txn : Transaction} {action : Action α}
  {next : α → Stage}

theorem of_le (h : Timed s) {executor : Executor} {holders : List Snapshot}
    (hle : s.dataset.lastIssuedTimestamp ≤ d.lastIssuedTimestamp) :
    Timed { s with dataset := d, executor, holders } :=
  ⟨fun t ht ts hts => (h.stages t ht ts hts).trans hle, fun g hg => (h.history g hg).trans hle⟩

theorem set (h : Timed s) {t : TxnState}
    (hle : s.dataset.lastIssuedTimestamp ≤ d.lastIssuedTimestamp)
    (ht : ∀ ts, t.stage.timestamp? = some ts → ts ≤ d.lastIssuedTimestamp) :
    Timed { s with dataset := d, txns := s.txns.set id t } where
  stages t' ht' ts hts := by
    rcases List.mem_or_eq_of_mem_set ht' with ht' | rfl
    · exact (h.stages t' ht' ts hts).trans hle
    · exact ht ts hts
  history g hg := (h.history g hg).trans hle

theorem commitStep (h : Timed s)
    (hact : ∀ r d, action s.dataset = (r, d) →
      s.dataset.lastIssuedTimestamp ≤ d.lastIssuedTimestamp ∧ ∀ a, r = .ok a →
      ∀ ts, (next a).timestamp? = some ts → ts ≤ d.lastIssuedTimestamp) :
    Timed (Txn.commitStep s id txn action next) := by
  unfold Txn.commitStep
  split
  · rename_i a d hrun
    obtain ⟨hle, hts⟩ := hact _ d hrun
    exact h.set hle (hts a rfl)
  · rename_i e d hrun
    exact h.set (hact _ d hrun).1 fun ts hts => by cases hts

/-- A part of a commit after its start keeps the timestamp. -/
theorem commitStep_same (h : Timed s) {stage : Stage} (hid : s.txns[id]? = some ⟨txn, stage⟩)
    (hact : Effect.Within (fun d d' => d.lastIssuedTimestamp ≤ d'.lastIssuedTimestamp) action)
    (hnext : ∀ a, (next a).timestamp? = stage.timestamp?) :
    Timed (Txn.commitStep s id txn action next) := by
  refine h.commitStep fun r d hrun => ⟨hact.of_eq hrun, fun a _ ts hts => ?_⟩
  rw [hnext] at hts
  exact (h.stages _ (List.mem_of_getElem? hid) ts hts).trans (hact.of_eq hrun)

/-- A step that may publish: the new version's timestamp was issued before. -/
theorem record (h : Timed s) {event : Event} {txns : List TxnState} {executor : Executor}
    (hle : s.dataset.lastIssuedTimestamp ≤ d.lastIssuedTimestamp)
    (htxns : ∀ t ∈ txns, t ∈ s.txns ∨ t.stage.timestamp? = none)
    (hcur : d.current = s.dataset.current ∨
      d.current.manifest.committedAtUs ≤ d.lastIssuedTimestamp) :
    Timed { s with dataset := d, txns, executor, history := s.record d event } where
  stages t ht ts hts := by
    rcases htxns t ht with ht | hnone
    · exact (h.stages t ht ts hts).trans hle
    · rw [hnone] at hts
      cases hts
  history g hg := by
    change g ∈ System.record s d event at hg
    unfold System.record at hg
    split at hg
    · exact (h.history g hg).trans hle
    · rename_i hversion
      rcases List.mem_append.mp hg with hg | hg
      · exact (h.history g hg).trans hle
      · rw [List.mem_singleton.mp hg]
        rcases hcur with hcur | hcur
        · rw [hcur] at hversion
          exact absurd rfl hversion
        · exact hcur

theorem planStep (h : Timed s) (plan : Except TxnError (List Candidate)) :
    Timed (Txn.planStep s plan) := by
  unfold Txn.planStep
  split <;> exact h.of_le le_rfl

/-- A new handle starts from the high water of the current version. -/
theorem reopen (hi : Inv P s) (hs : systemStep P s .reopen = some s')
    (hcovers : ∀ g ∈ s.history, g.committedAt ≤ s.dataset.current.manifest.commitTimeHighWater) :
    Timed s' := by
  obtain ⟨hissued, htxns, hhist⟩ := hi.reopen_times hs
  constructor
  · intro t ht ts hts
    rw [htxns t ht] at hts
    cases hts
  · rw [hissued, hhist]
    exact hcovers

end Timed

/-- A handle is only lost while the current manifest's high water covers the timestamps
of all versions. -/
def ReopensCovered (s : System) (label : Label) : Prop :=
  label = .reopen → ∀ g ∈ s.history,
    g.committedAt ≤ s.dataset.current.manifest.commitTimeHighWater

/-- Whatever the clock says, the next timestamp is not below that of any version. -/
def IssuesAbove (s : System) : Prop :=
  ∀ clock ts d, issueTimestamp clock s.dataset = (.ok ts, d) → ∀ g ∈ s.history, g.committedAt ≤ ts

theorem Timed.step (h : Timed s) (hi : Inv P s) (hok : s.ReopensCovered label)
    (hs : systemStep P s label = some s') : Timed s' := by
  cases Move.of_step hs with
  | begin =>
    refine ⟨fun t ht ts hts => ?_, h.history⟩
    rcases List.mem_append.mp ht with ht | ht
    · exact h.stages t ht ts hts
    · rw [List.mem_singleton.mp ht] at hts
      cases hts
  | stage _ _ _ | rollback _ => exact h.set le_rfl fun ts hts => by cases hts
  | refuse _ => exact h
  | reopen _ => exact .reopen hi hs (hok rfl)
  | start _ _ =>
    refine h.commitStep fun r d hrun =>
      ⟨((unreserving_issueTimestamp _).of_eq hrun).issued_le, fun a hr ts hts => ?_⟩
    rw [hr] at hrun
    cases hts
    rw [issueTimestamp_eq_ok hrun]
  | skip hid _ => exact h.set le_rfl fun ts hts => h.stages _ (List.mem_of_getElem? hid) ts hts
  | number hid =>
    exact h.commitStep_same hid (fun d => (unreserving_takeAttempt _ _ d).issued_le) fun _ => rfl
  | claim hid =>
    exact h.commitStep_same hid (fun d => (claimForPending_issued _ _ d).ge) fun _ => rfl
  | write hid =>
    exact h.commitStep_same hid
      (fun d => (unreserving_writePendingBatches _ _ _ _ _ _ d).issued_le) fun _ => rfl
  | index hid =>
    exact h.commitStep_same hid (fun d => (unreserving_indexWritten _ _ _ _ d).issued_le)
      fun _ => rfl
  | publish hid hrun =>
    obtain ⟨hle, hcur⟩ :=
      publishCommit_stamps (h.stages _ (List.mem_of_getElem? hid) _ rfl) hrun
    refine h.record hle (fun t ht => ?_) hcur
    exact (List.mem_or_eq_of_mem_set ht).imp_right fun heq => by rw [heq]; rfl
  | compact _ hrun =>
    obtain ⟨hle, hcur⟩ := publishCompaction_stamps hrun
    exact h.record hle (fun t ht => .inl ht) hcur
  | migrate _ hrun =>
    obtain ⟨hle, hcur⟩ := migrateSchema_stamps hrun
    exact h.record hle (fun t ht => .inl ht) hcur
  | plan _ _ => exact h.planStep _
  | deleteNext _ hrun => exact h.of_le ((unreserving_deleteObject _ _).of_eq hrun).issued_le
  | _ => exact h.of_le le_rfl

open scoped Classical in
theorem timed_of_covered (h : ((system P).restrict ReopensCovered).Reachable s) : Timed s := by
  refine h.invariant (fun s₀ h₀ => ?_) fun s label s' hs htimed hstep => ?_
  · obtain ⟨_, _, _, _, _, _, d, hcreate, rfl⟩ := h₀
    refine ⟨fun t ht => absurd ht List.not_mem_nil, fun g hg => ?_⟩
    rw [List.mem_singleton.mp hg]
    exact (createDataset_times hcreate).2.le
  · obtain ⟨hok, hstep⟩ := TransitionSystem.restrict_step.mp hstep
    exact htimed.step (inv_of_reachable hs.of_restrict) hok hstep

theorem Timed.issuesAbove (h : Timed s) : s.IssuesAbove := by
  intro clock ts d hissue g hg
  have hle := (unreserving_issueTimestamp clock).of_eq hissue |>.issued_le
  rw [issueTimestamp_eq_ok hissue] at hle
  exact (h.history g hg).trans hle

/-- With the clock at the epoch, the next timestamp is the last one. -/
theorem issuesAbove_iff (hnonneg : 0 ≤ s.dataset.lastIssuedTimestamp) :
    s.IssuesAbove ↔ ∀ g ∈ s.history, g.committedAt ≤ s.dataset.lastIssuedTimestamp := by
  constructor
  · intro h g hg
    have hissue : issueTimestamp (some 0) s.dataset =
        (.ok (max s.dataset.lastIssuedTimestamp 0),
          { s.dataset with lastIssuedTimestamp := max s.dataset.lastIssuedTimestamp 0 }) := rfl
    have := h _ _ _ hissue g hg
    rwa [max_eq_left hnonneg] at this
  · intro h clock ts d hissue g hg
    have hle := (unreserving_issueTimestamp clock).of_eq hissue |>.issued_le
    rw [issueTimestamp_eq_ok hissue] at hle
    exact (h g hg).trans hle

end System

open scoped Classical in
/-- Timestamps do not go back as long as no handle is lost while a version's timestamp is
above the current high water, and each time that happens they can. The high water never
falls from version to version, and the rows of every file a manifest lists are below its
high water. -/
theorem timestamps_across_restarts (P : Platform) :
    (∀ s, ((system P).restrict System.ReopensCovered).Reachable s → s.IssuesAbove) ∧
    (∀ s s', (system P).Reachable s → systemStep P s .reopen = some s' →
      (s'.IssuesAbove ↔ ∀ g ∈ s.history,
        g.committedAt ≤ s.dataset.current.manifest.commitTimeHighWater)) ∧
    (∀ s, (system P).Reachable s → ∀ g ∈ s.history, ∀ g' ∈ s.history,
      g.snapshot.version ≤ g'.snapshot.version → g.highWater ≤ g'.highWater) ∧
    ∀ s, (system P).Reachable s → ∀ g ∈ s.history, ∀ e ∈ g.snapshot.manifest.dataFiles,
      ∀ batch, readBatch s.dataset.store e.name = .ok batch →
        ∀ r ∈ batch.rows, storedTimestamp r ≤ g.highWater := by
  refine ⟨fun s hs => (System.timed_of_covered hs).issuesAbove, fun s s' hs hreopen => ?_,
    fun s hs g hg g' hg' hle => ?_, fun s hs g hg e he batch hread r hr => ?_⟩
  · have hi := System.inv_of_reachable hs
    obtain ⟨hissued, -, hhist⟩ := hi.reopen_times hreopen
    obtain ⟨last, hlast, hcur, -⟩ := hi.recorded.current
    have hnonneg := (System.dated_of_reachable hs).nonneg last (List.mem_of_getLast? hlast)
    rw [Publication.highWater, hcur, ← hissued] at hnonneg
    rw [System.issuesAbove_iff hnonneg, hissued, hhist]
  · have hi := System.inv_of_reachable hs
    obtain ⟨i, hi'⟩ := List.mem_iff_getElem?.mp hg
    obtain ⟨j, hj'⟩ := List.mem_iff_getElem?.mp hg'
    rw [hi.recorded.chain.version hi', hi.recorded.chain.version hj'] at hle
    obtain ⟨hilt, rfl⟩ := List.getElem?_eq_some_iff.mp hi'
    obtain ⟨hjlt, rfl⟩ := List.getElem?_eq_some_iff.mp hj'
    rcases Nat.lt_or_eq_of_le hle with hlt | rfl
    · exact List.pairwise_iff_getElem.mp (System.dated_of_reachable hs).ordered i j hilt hjlt hlt
    · exact le_rfl
  · have hd := System.dated_of_reachable hs
    obtain ⟨cat, hv, hstored, hrows⟩ := hd.rows g hg
    rw [hv.files_eq] at he
    obtain ⟨f, hf, rfl⟩ := List.mem_map.mp he
    have hget : s.dataset.store.get (.data f.1.name) = some (.rows batch) := by
      unfold readBatch at hread
      split at hread <;> cases hread
      assumption
    have hkept := hd.objects g hg _ (hv.file_name_mem hf) _ hget
    rw [hstored.files f hf] at hkept
    have hbatch := Object.rows.inj (Option.some.inj hkept)
    exact hrows r (List.mem_flatMap.mpr ⟨f, hf, by rwa [hbatch]⟩)

/-- A compaction at time 100 after a commit at time 1; the handle is lost, the clock is
set back, and the next commit is published with timestamp 50. -/
theorem timestamps_across_restarts_compaction :
    ∃ s s', plainRun idSchema (insertLabels (idBatch [10]) ++ [.compact (some 100) {}]) = some s ∧
      (system plainPlatform).run s
        ([.reopen, .begin, .insert 1 (idBatch [20])] ++ commitLabels 1 50) = some s' ∧
      s'.history.map Publication.committedAt = [0, 1, 100, 50] := by
  have hrun : ((plainRun idSchema (insertLabels (idBatch [10]) ++ [.compact (some 100) {}])).bind
      fun s => ((system plainPlatform).run s
        ([.reopen, .begin, .insert 1 (idBatch [20])] ++ commitLabels 1 50)).map fun s' =>
          s'.history.map Publication.committedAt) = some [0, 1, 100, 50] := by
    decide +kernel
  obtain ⟨s, hs, h⟩ := Option.bind_eq_some_iff.mp hrun
  obtain ⟨s', hs', htimes⟩ := Option.map_eq_some_iff.mp h
  exact ⟨s, s', hs, hs', htimes⟩

/-- A handle that is lost after a commit. -/
theorem timestamps_across_restarts_commit :
    ∃ s s', plainRun idSchema (insertLabels (idBatch [10])) = some s ∧
      systemStep plainPlatform s .reopen = some s' ∧
      s.history.map Publication.committedAt = [0, 1] ∧ s'.IssuesAbove := by
  have hrun : ((plainRun idSchema (insertLabels (idBatch [10]))).bind fun s =>
      (systemStep plainPlatform s .reopen).map fun _ =>
        (s.history.map Publication.committedAt,
          s.dataset.current.manifest.commitTimeHighWater)) = some ([0, 1], 1) := by
    decide +kernel
  obtain ⟨s, hs, h⟩ := Option.bind_eq_some_iff.mp hrun
  obtain ⟨s', hs', hout⟩ := Option.map_eq_some_iff.mp h
  simp only [Prod.mk.injEq] at hout
  obtain ⟨htimes, hhigh⟩ := hout
  refine ⟨s, s', hs, hs', htimes, ((timestamps_across_restarts plainPlatform).2.1 s s'
    (reachable_runOn hs) hs').mpr fun g hg => ?_⟩
  have hmem : g.committedAt ∈ s.history.map Publication.committedAt := List.mem_map_of_mem hg
  rw [htimes] at hmem
  rw [hhigh]
  rcases List.mem_cons.mp hmem with h | h
  · rw [h]
    decide
  · rw [List.mem_singleton.mp h]

end StrataDB.Txn
