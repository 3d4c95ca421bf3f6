import StrataDB.Txn.Growth

/-! Memory and storage agree: what a publication reports, what is kept for the
holders of snapshots, and what a new handle finds. -/

namespace StrataDB.Txn

open Lib Arrow Index Storage

variable {P : Platform} {s s' : System}

/-! ### Outcomes of publications -/

/-- One version was published and installed, with one log entry. -/
structure Advanced (d d' : Dataset) (writeSet : List ℕ) : Prop where
  version : d'.current.version = d.current.version + 1
  installed : d'.store.get (.manifest d'.current.version) = some (.manifest d'.current.manifest)
  log : d'.log = d.log.push d'.current.version writeSet

/-- Neither the current version nor the log nor any manifest has changed. -/
structure Unchanged (d d' : Dataset) : Prop where
  current : d'.current = d.current
  log : d'.log = d.log
  manifests : ∀ version, d'.store.get (.manifest version) = d.store.get (.manifest version)

variable {names : ObjectName → Prop} {d : Dataset} {cat : Catalog}

theorem Advances.unchanged {d' : Dataset} (h : Advances names d d') : Unchanged d d' :=
  ⟨h.current_eq, h.log_eq, h.manifest_eq⟩

theorem advanced_published (d : Dataset) (snapshot : Snapshot) (writeSet : List ℕ)
    (hversion : snapshot.manifest.version = snapshot.version)
    (hnext : snapshot.version = d.current.version + 1) :
    Advanced d (d.published snapshot writeSet) writeSet where
  version := hnext
  installed := by
    show Store.get (d.store.insert snapshot.manifest.key _) _ = _
    rw [Manifest.key, hversion]
    exact Store.get_insert_self _ _ _
  log := rfl

/-- A part of a commit other than a visible publication changes nothing that is
published. -/
theorem commitStep_unchanged {α : Type} {id : ℕ} {t : Transaction} {action : Action α}
    {next : α → Stage} (hlt : id < s.txns.length) (hadv : Effect.Within (Advances names) action)
    (hdef : DefiniteAction action) (hnext : ∀ a, (next a).preparing = true) :
    Unchanged s.dataset (commitStep s id t action next).dataset ∧
      ∀ u outcome, (commitStep s id t action next).txns[id]? = some ⟨u, .finished outcome⟩ →
        ∀ version, ¬ VisibleResult version outcome := by
  refine ⟨(System.commitStep_advances _ _ _ _ hadv).2.unchanged, ?_⟩
  unfold commitStep
  split
  · rename_i a d hrun
    intro u outcome hu
    rw [List.getElem?_set_self hlt] at hu
    have hstage := hnext a
    rw [(TxnState.mk.inj (Option.some.inj hu)).2] at hstage
    cases hstage
  · rename_i e d hrun
    intro u outcome hu version
    rw [List.getElem?_set_self hlt] at hu
    cases hu
    exact (hdef.of_eq hrun).not_visible version

theorem publishCommit_agrees (h : s.Inv P) {txn : Transaction} {ts : ℤ} {files : List DataFileEntry}
    {segment : Option PublishedSegment} {fault : Fault} {r : Except TxnError Unit}
    (hrun : publishCommit P txn ts files segment fault s.dataset = (r, d)) :
    ((∃ version, VisibleResult version r) → Advanced s.dataset d txn.writeSet) ∧
      ((¬ ∃ version, VisibleResult version r) → Unchanged s.dataset d) := by
  rcases publishCommit_cases h.recorded.latest.free hrun with
    ⟨hv, rfl, _⟩ | ⟨⟨e, rfl, hdef⟩, rfl⟩
  · exact ⟨fun _ => advanced_published _ _ _ rfl rfl, fun hno => absurd ⟨_, hv⟩ hno⟩
  · exact ⟨fun ⟨version, hv⟩ => absurd hv (hdef.not_visible version),
      fun _ => ⟨rfl, rfl, fun _ => rfl⟩⟩

theorem migrateSchema_agrees (h : s.Inv P) {migration : SchemaMigration} {clock : Option ℕ}
    {faults : MigrationFaults} {r : Except TxnError SchemaMigrationResult}
    (hrun : migrateSchema P migration clock faults s.dataset = (r, d)) :
    ((∃ version, VisibleResult version r) → Advanced s.dataset d []) ∧
      ((¬ ∃ version, VisibleResult version r) → Unchanged s.dataset d) := by
  obtain ⟨last, cat, _, _, _, hv, _, hstored⟩ := h.recorded.current_valid
  rcases migrateSchema_cases hv hstored h.recorded.latest.free hrun with
    ⟨d₁, column, ts, cat', hm, hvisible, _, rfl, _⟩ | ⟨⟨e, rfl, hdef⟩, hadv⟩
  · refine ⟨fun _ => ?_, fun hno => absurd ⟨_, hvisible⟩ hno⟩
    obtain ⟨hversion, hinstalled, hlog⟩ := advanced_published d₁
      (migrated s.dataset column ts cat') [] rfl
      (by rw [hm.advances.current_eq]; rfl)
    exact ⟨rfl, hinstalled, by rw [hlog, hm.advances.log_eq]⟩
  · exact ⟨fun ⟨version, hvis⟩ => absurd hvis (hdef.not_visible version),
      fun _ => hadv.unchanged⟩

/-- The current manifest is always the highest one on storage. A commit or a
migration that reports `Ok` or an indeterminate publication has published one
version; every other part of a commit, and a migration with any other error, has
left versions, log and manifests alone. -/
theorem publication_agrees (h : (system P).Reachable s) :
    readCurrent P.format s.dataset.store = .ok (some s.dataset.current.manifest) ∧
      ∀ label s', systemStep P s label = some s' →
        (∀ id t stage, label.commits = some id → s'.txns[id]? = some ⟨t, stage⟩ →
          ((∃ version outcome, stage = .finished outcome ∧ VisibleResult version outcome) →
            Advanced s.dataset s'.dataset t.writeSet) ∧
          ((¬ ∃ version outcome, stage = .finished outcome ∧ VisibleResult version outcome) →
            Unchanged s.dataset s'.dataset)) ∧
        ∀ migration clock faults, label = .migrate migration clock faults →
          ((∃ version, VisibleResult version
              (migrateSchema P migration clock faults s.dataset).1) →
            Advanced s.dataset s'.dataset []) ∧
          ((¬ ∃ version, VisibleResult version
              (migrateSchema P migration clock faults s.dataset).1) →
            Unchanged s.dataset s'.dataset) := by
  have hi := System.inv_of_reachable h
  obtain ⟨_, cat, _, _, _, hv, _, _⟩ := hi.recorded.current_valid
  refine ⟨hi.recorded.latest.readCurrent hv, fun label s' hs => ⟨fun id t stage hlabel ht => ?_,
    fun migration clock faults hlabel => ?_⟩⟩
  · rcases (System.Move.of_step hs).commit_cases hlabel with
      ⟨α, txn, _, action, next, names, hid, _, hadv, hdef, hnext, rfl⟩ |
      ⟨txn, ts, claim, files, segment, fault, r, d, hid, _, hrun, rfl⟩
    · have hlt := (List.getElem?_eq_some_iff.mp hid).1
      obtain ⟨hsame, hnot⟩ := commitStep_unchanged (t := txn) hlt hadv hdef hnext
      refine ⟨fun ⟨version, outcome, hstage, hvis⟩ => ?_, fun _ => hsame⟩
      exact absurd hvis (hnot t outcome (by rw [ht, hstage]) version)
    · rw [List.getElem?_set_self (List.getElem?_eq_some_iff.mp hid).1] at ht
      cases ht
      obtain ⟨hyes, hno⟩ := publishCommit_agrees hi hrun
      refine ⟨fun ⟨version, outcome, hstage, hvis⟩ => hyes ⟨version, ?_⟩,
        fun hnone => hno fun ⟨version, hvis⟩ => hnone ⟨version, r, rfl, hvis⟩⟩
      cases hstage
      exact hvis
  · subst hlabel
    simp only [systemStep, lifecycleStep] at hs
    split at hs
    · cases hs
      exact migrateSchema_agrees hi rfl
    · cases hs

/-- An insert up to its publication. -/
def insertPrepared : List Label :=
  [.begin, .insert 0 (idBatch [10, 20])] ++ (commitLabels 0 1).dropLast

/-- A sync error after the manifest was linked. -/
theorem publication_agrees_late :
    ∃ s s', plainRun idSchema insertPrepared = some s ∧
      systemStep plainPlatform s (.publish 0 .late) = some s' ∧
      Advanced s.dataset s'.dataset [] := by
  have hrun : ((plainRun idSchema insertPrepared).bind fun s =>
      systemStep plainPlatform s (.publish 0 .late)).map
        (fun s' => s'.txns.map fun t => (t.txn.writeSet, match t.stage with
          | .finished (.error (.indeterminateManifestPublication version _)) => some version
          | _ => none)) = some [([], some 1)] := by
    decide +kernel
  obtain ⟨s', hs', hout⟩ := Option.map_eq_some_iff.mp hrun
  obtain ⟨s, hs, hstep⟩ := Option.bind_eq_some_iff.mp hs'
  refine ⟨s, s', hs, hstep, ?_⟩
  obtain ⟨t, htxns, ht⟩ := List.map_eq_singleton_iff.mp hout
  obtain ⟨hws, hstage⟩ := Prod.mk.inj ht
  rw [← hws]
  refine (((publication_agrees (reachable_runOn hs)).2 _ _ hstep).1 0 t.txn t.stage rfl
    (by rw [htxns]; rfl)).1 ?_
  split at hstage
  · rename_i version source hfin
    exact ⟨version, _, hfin, .inr ⟨source, rfl⟩⟩
  · cases hstage

/-! ### Held snapshots -/

/-- In every state the current version and each version that a snapshot or a
transaction holds has its manifest on storage, and every object listed there is
present as it was when the version was published. -/
theorem held_versions_kept (h : (system P).Reachable s) {b : Snapshot}
    (hb : b = s.dataset.current ∨ b ∈ s.held) :
    ∃ g ∈ s.history, g.snapshot = b ∧
      s.dataset.store.get (.manifest b.version) = some (.manifest b.manifest) ∧
      ∀ n ∈ b.manifest.objectNames, ∃ object, g.store.get (.data n) = some object ∧
        s.dataset.store.get (.data n) = some object := by
  have hi := System.inv_of_reachable h
  obtain ⟨g, hg, rfl, hlive⟩ := hi.live_mem (List.mem_cons.mpr hb)
  have hkept := hi.kept g hg hlive
  obtain ⟨cat, hv, hstored⟩ := hi.recorded.valid_of_mem hg
  refine ⟨g, hg, rfl, hkept.manifest, fun n hn => ?_⟩
  obtain ⟨object, hobject⟩ := hv.object_stored hstored hn
  exact ⟨object, hobject, by rw [hkept.objects n hn, hobject]⟩

/-- A compaction, its reclamation and a prune while the version before them is
held. -/
def heldLabels : List Label :=
  [.begin, .insert 0 (idBatch [10, 20])] ++ commitLabels 0 1 ++
    [.acquire, .compact (some 2) {}, .reclaim, .deleteNext .none, .acquire, .prune 1,
      .deleteNext .none, .deleteNext .none]

theorem held_versions_kept_heldLabels :
    ∃ s b, plainRun idSchema heldLabels = some s ∧ b ∈ s.held ∧
      b.version ≠ s.dataset.current.version ∧ ∃ g ∈ s.history, g.snapshot = b ∧
        s.dataset.store.get (.manifest b.version) = some (.manifest b.manifest) ∧
        ∀ n ∈ b.manifest.objectNames, ∃ object, g.store.get (.data n) = some object ∧
          s.dataset.store.get (.data n) = some object := by
  have hrun : (plainRun idSchema heldLabels).map
      (fun s => (s.dataset.current.version, s.holders.map Snapshot.version)) =
        some (2, [1, 2]) := by
    decide +kernel
  obtain ⟨s, hs, hout⟩ := Option.map_eq_some_iff.mp hrun
  obtain ⟨hcur, hheld⟩ := Prod.mk.inj hout
  obtain ⟨b, hb, hversion⟩ := List.mem_map.mp (hheld ▸ List.mem_cons_self :
    1 ∈ s.holders.map Snapshot.version)
  have hmem : b ∈ s.held := System.mem_held.mpr (.inl hb)
  exact ⟨s, b, hs, hmem, by omega, held_versions_kept (reachable_runOn hs) (.inr hmem)⟩

/-! ### Reopening -/

/-- The row files of a version carry the metadata of its schema. -/
def Snapshot.CarriesMetadata (b : Snapshot) (store : Store) : Prop :=
  ∀ e ∈ b.manifest.dataFiles, ∀ batch, store.get (.data e.name) = some (.rows batch) →
    batch.schema.metadata = b.schema.metadata

theorem Snapshot.Valid.carriesMetadata_iff {b : Snapshot} {store : Store} (hv : b.Valid P cat)
    (hs : cat.StoredIn store) : b.CarriesMetadata store ↔ cat.MetadataKept b.schema := by
  constructor
  · intro h f hf
    refine h f.1 ?_ f.2 (hs.files f hf)
    rw [hv.files_eq]
    exact List.mem_map_of_mem hf
  · intro h e he batch hbatch
    rw [hv.files_eq] at he
    obtain ⟨f, hf, rfl⟩ := List.mem_map.mp he
    rw [hs.files f hf] at hbatch
    cases hbatch
    exact h f hf

/-- A compaction is safe if there is no schema metadata to lose, or no row. -/
def SafeCompaction (s : System) (label : Label) : Prop :=
  ∀ clock faults, label = .compact clock faults →
    s.dataset.current.schema.metadata = [] ∨ ∀ i, s.dataset.current.ownsLiveRow i = false

/-- Every publication but an unsafe compaction keeps the metadata in its files. -/
theorem System.Grows.metadataKept {label : Label} {new : Publication} {cat' : Catalog}
    (h : s.Grows P s' label new cat cat') (hsafe : SafeCompaction s label)
    (hkept : cat.MetadataKept s.dataset.current.schema) :
    cat'.MetadataKept new.snapshot.schema := by
  have hpub := h.publishes
  generalize new.snapshot = snapshot at hpub
  cases hpub with
  | commit hc =>
    refine List.forall_mem_append.mpr ⟨fun f hf => ?_, hc.prepared.files.metadata⟩
    rw [hkept f hf, ← hc.schema_eq]
    rfl
  | @compaction clock faults d₁ ts files segment hc =>
    intro f hf
    rw [hc.rows.metadata f hf]
    rcases hsafe clock faults rfl with hnil | hnone
    · exact hnil.symm
    · have hempty : cat.liveRows s.dataset.current.tombstones = [] := by
        refine List.eq_nil_iff_forall_not_mem.mpr fun r hr => ?_
        have := hc.source.ownsLiveRow_iff.mpr (List.mem_map_of_mem hr)
        rw [hnone] at this
        cases this
      exact absurd hempty (hc.rows.runs.ne_nil (List.mem_map_of_mem hf))
  | migration hm hmeta => exact hmeta

open scoped Classical in
/-- In a run whose compactions are safe, every version's files carry the metadata. -/
theorem carriesMetadata_of_safe (h : ((system P).restrict SafeCompaction).Reachable s) :
    ∀ g ∈ s.history, g.snapshot.CarriesMetadata g.store := by
  refine h.invariant (p := fun s => ∀ g ∈ s.history, g.snapshot.CarriesMetadata g.store)
    (fun s hs => ?_) fun s label s' hreach hall hstep => ?_
  · obtain ⟨store, schema, capacity, clock, faults, store', d, hcreate, rfl⟩ := hs
    intro g hg e he
    obtain rfl := List.mem_singleton.mp hg
    rw [(createDataset_spec hcreate).1.valid.files_eq] at he
    cases he
  · obtain ⟨hsafe, hstep⟩ := TransitionSystem.restrict_step.mp hstep
    have hi := System.inv_of_reachable hreach.of_restrict
    rcases hi.step_effect hstep with ⟨new, cat, cat', hg⟩ | ⟨hsame, _⟩
    swap
    · rw [hsame]
      exact hall
    · rw [hg.history]
      refine List.forall_mem_append.mpr ⟨hall, fun g hmem => ?_⟩
      obtain rfl := List.mem_singleton.mp hmem
      refine (hg.valid.carriesMetadata_iff hg.stored).mpr (hg.metadataKept hsafe ?_)
      obtain ⟨last, hlast, hcur, hkept⟩ := hi.recorded.current
      rw [← hg.source.carriesMetadata_iff hg.source_stored, ← hcur]
      intro e he batch hbatch
      refine hall last (List.mem_of_getLast? hlast) e he batch ?_
      rwa [hkept.objects e.name (List.mem_append_left _ (List.mem_map_of_mem he))] at hbatch

open scoped Classical in
/-- In a run whose compactions are safe, and while the claimed row ids are below
the ceiling, opening succeeds and gives back the current version. -/
theorem open_current (h : ((system P).restrict SafeCompaction).Reachable s)
    (hceiling : ∀ last ∈ s.dataset.store.reservations, last ≤ maxReasonableRowIdCapacity) :
    ∃ d, openDataset P s.dataset.store = .ok d ∧ d.store = s.dataset.store ∧
      d.current = s.dataset.current := by
  have hi := System.inv_of_reachable h.of_restrict
  obtain ⟨last, hlast, hcur, hkept⟩ := hi.recorded.current
  obtain ⟨cat, hv, hstored, _⟩ := hi.recorded.valid
  obtain ⟨highest, hread, hle, _⟩ := hi.recorded.durable.highWater
  have hmeta : cat.MetadataKept s.dataset.current.schema := by
    rw [← hv.carriesMetadata_iff hstored, ← hcur]
    intro e he batch hbatch
    refine carriesMetadata_of_safe h last (List.mem_of_getLast? hlast) e he batch ?_
    rwa [hkept.objects e.name (List.mem_append_left _ (List.mem_map_of_mem he))] at hbatch
  have hmax : max s.dataset.current.manifest.nextRowId highest ≤ maxReasonableRowIdCapacity := by
    rw [max_eq_right (hi.recorded.rowIds_le.trans hle)]
    have hmem := (List.max?_eq_some_iff.mp (readRowIdHighWater_eq_ok.mp hread).2.symm).1
    exact hceiling highest hmem
  exact ⟨_, (openDataset_eq_ok hv hstored hi.recorded.latest hread).mpr ⟨hmeta, hmax, rfl⟩,
    rfl, rfl⟩

open scoped Classical in
theorem open_current_idSchema :
    ∃ s s' d, plainRun idSchema (insertLabels (idBatch [10, 20])) = some s ∧
      systemStep plainPlatform s (.compact (some 2) {}) = some s' ∧
      openDataset plainPlatform s'.dataset.store = .ok d ∧ d.current = s'.dataset.current := by
  have hrun : ((plainRun idSchema (insertLabels (idBatch [10, 20]))).bind fun s =>
      (systemStep plainPlatform s (.compact (some 2) {})).map fun s' =>
        (s.dataset.current.schema.metadata, s'.dataset.store.reservations)) =
      some ([], [2, 0]) := by
    decide +kernel
  obtain ⟨s, hs, hmap⟩ := Option.bind_eq_some_iff.mp hrun
  obtain ⟨s', hs', hout⟩ := Option.map_eq_some_iff.mp hmap
  obtain ⟨hmeta, hres⟩ := Prod.mk.inj hout
  obtain ⟨s₀, hinit, hlabels⟩ := runOn_eq_some hs
  have hreach : ((system plainPlatform).restrict SafeCompaction).Reachable s := by
    refine TransitionSystem.Reachable.restrict_run (.init hinit) (fun label hl t => ?_) hlabels
    rintro clock faults rfl
    simp [insertLabels, commitLabels] at hl
  have hsafe : SafeCompaction s (.compact (some 2) {}) := fun _ _ _ => .inl hmeta
  have hreach' : ((system plainPlatform).restrict SafeCompaction).Reachable s' :=
    hreach.step (TransitionSystem.restrict_step.mpr ⟨hsafe, hs'⟩)
  obtain ⟨d, hd, _, hcur⟩ := open_current hreach' (by rw [hres]; decide)
  exact ⟨s, s', d, hs, hs', hd, hcur⟩

/-- The same table with metadata on its schema. -/
def labelledSchema : Schema := ⟨idSchema.fields, [("owner", "ops")]⟩

/-- A compaction drops the schema's metadata, and the version it publishes cannot
be opened. -/
theorem open_fails_after_compaction :
    ∃ s, plainRun labelledSchema (insertLabels (batchOf labelledSchema [[.int64 10]]) ++
        [.compact (some 2) {}]) = some s ∧ s.dataset.current.version = 2 ∧
      s.dataset.store.reservations = [1, 0] ∧
      ∃ e, openDataset plainPlatform s.dataset.store = .error e := by
  have hrun : (plainRun labelledSchema (insertLabels (batchOf labelledSchema [[.int64 10]]) ++
      [.compact (some 2) {}])).map (fun s => (s.dataset.current.version,
        s.dataset.store.reservations, (openDataset plainPlatform s.dataset.store).isOk)) =
      some (2, [1, 0], false) := by
    decide +kernel
  obtain ⟨s, hs, hout⟩ := Option.map_eq_some_iff.mp hrun
  obtain ⟨hversion, hrest⟩ := Prod.mk.inj hout
  obtain ⟨hres, hopen⟩ := Prod.mk.inj hrest
  exact ⟨s, hs, hversion, hres, exists_error_of_isOk_eq_false hopen⟩

end StrataDB.Txn
