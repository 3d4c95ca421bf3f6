import StrataDB.Txn.Publishing
import StrataDB.Txn.Recovery

/-! Making a handle: a created dataset is a valid empty version, and opening the
store of a valid version gives that version back. -/

namespace StrataDB.Txn

open Lib Arrow Index Storage

/-- The latest version is the highest one on the store. -/
structure Latest (s : Snapshot) (store : Store) : Prop where
  listed : store.get (.manifest s.version) = some (.manifest s.manifest)
  highest : ∀ version, (store.get (.manifest version)).isSome → version ≤ s.version

variable {s : Snapshot} {store : Store} {P : Platform} {cat : Catalog} {m : Manifest} {d : Dataset}

theorem Latest.free (h : Latest s store) : store.get (.manifest (s.version + 1)) = none := by
  rw [← Option.not_isSome_iff_eq_none]
  intro hsome
  have := h.highest _ hsome
  omega

theorem Latest.readCurrent (h : Latest s store) (hv : s.Valid P cat) :
    readCurrent P.format store = .ok (some s.manifest) := by
  have hmax : store.versions.max? = some s.version := by
    rw [List.max?_eq_some_iff]
    refine ⟨Store.mem_versions.mpr (by rw [h.listed]; rfl), fun v hv => ?_⟩
    exact h.highest v (Store.mem_versions.mp hv)
  have hread : readManifest P.format store s.version = .ok s.manifest := by
    simp only [readManifest, Store.manifestAt, h.listed, orElse, ok_bind, hv.decodes]
  rw [Storage.readCurrent, hmax]
  simp only [hread]
  rfl

/-! ### Creation -/

theorem versions_eq_nil (h : store.versions.max? = none) (version : ℕ) :
    store.get (.manifest version) = none := by
  rw [List.max?_eq_none_iff] at h
  rw [← Option.not_isSome_iff_eq_none, ← Store.mem_versions, h]
  exact List.not_mem_nil

theorem readCurrent_eq_none {F : Format} (h : readCurrent F store = .ok none) (version : ℕ) :
    store.get (.manifest version) = none := by
  unfold Storage.readCurrent at h
  split at h
  · exact versions_eq_nil ‹_› version
  · rename_i v hv
    cases hread : readManifest F store v <;> rw [hread] at h <;> cases h

/-- The empty catalog. -/
def Catalog.empty : Catalog := ⟨[], []⟩

theorem valid_empty {schema : Schema} (hw : WellNamed schema)
    (hm : m = { Manifest.emptyWithSchema schema with committedAtUs := m.committedAtUs })
    (hdec : decodeManifest P.format m.version m = .ok m) :
    (Snapshot.empty m schema).Valid P Catalog.empty := by
  constructor
  case version_eq => rfl
  case schema_eq => rw [Snapshot.empty, hm]; rfl
  case wellNamed => exact hw
  case decodes => exact hdec
  case files_eq => rw [Snapshot.empty, hm]; rfl
  case segments_eq => rw [Snapshot.empty, hm]; rfl
  case names_nodup => rw [Snapshot.empty, hm]; exact List.nodup_nil
  case tombstones_eq => rw [Snapshot.empty, hm]; rfl
  case tombstones_nodup => exact List.nodup_nil
  case names_below => rw [Snapshot.empty, hm]; exact fun n hn => absurd hn List.not_mem_nil
  all_goals simp [Catalog.empty, Catalog.rowIds, Catalog.rows, Catalog.vectorIds, Catalog.vectors,
    Catalog.parts, Snapshot.empty, VectorsFinite]

/-- What a freshly created handle looks like. -/
structure Created (P : Platform) (schema : Schema) (capacity : ℕ) (d : Dataset) : Prop where
  valid : d.current.Valid P Catalog.empty
  latest : Latest d.current d.store
  version : d.current.version = 0
  schemaVersion : d.current.manifest.schemaVersion = some initialSchemaVersion
  schema_eq : d.current.schema = schema
  tombstones : d.current.tombstones = []
  nextRowId : d.current.manifest.nextRowId = 0
  nextAttemptId : d.current.manifest.nextAttemptId = 0
  log : d.log = CommitLog.new capacity
  durable : Durable d.store d.nextRowId

theorem createDataset_spec {store' : Store} {schema : Schema} {capacity : ℕ} {clock : Option ℕ}
    {faults : CreateFaults}
    (h : createDataset P store schema capacity clock faults = (store', .ok d)) :
    Created P schema capacity d ∧ d.store = store' := by
  unfold createDataset at h
  dsimp only at h
  split at h
  · cases h
  rename_i now hchecks
  simp only [bind_eq_ok, ensure_eq_ok, exists_const, lift_eq_ok, validateSchema_eq_ok] at hchecks
  obtain ⟨hw, existing, hread, rfl, _, _⟩ := hchecks
  have hnone := readCurrent_eq_none hread
  split at h
  · cases h
  · cases h
  rename_i store₁ last hpersist
  have hp := persist_spec hpersist
  obtain ⟨hrecords, _, hlast, _⟩ := hp.ok last rfl
  set m : Manifest := { Manifest.emptyWithSchema schema with committedAtUs := max 0 now } with hm
  have hfree : store₁.get m.key = none := by
    rw [hp.get_eq (by simp [Manifest.key])]
    exact hnone _
  rcases commitManifestWith_cases (F := P.format) faults.publication hfree with
    ⟨res, hres, hout, hdec⟩ | ⟨e, hres, _⟩
  · rw [hres] at h
    rcases hout with rfl | rfl
    swap
    · cases h
    dsimp only at h
    split at h
    · cases h
    rename_i durable hwater
    obtain ⟨rfl, hd⟩ := Prod.mk.inj h
    obtain rfl := Except.ok.inj hd
    obtain ⟨hrec, hdurable⟩ := readRowIdHighWater_eq_ok.mp hwater
    have hkept : Store.get (store₁.insert m.key (.manifest m)) (.reservation last) =
        some (.reservation last) := by
      rw [Store.get_insert_of_ne _ _ (by simp [Manifest.key])]
      exact hlast
    refine ⟨⟨valid_empty hw hm hdec, ⟨Store.get_insert_self _ _ _, fun v hv => ?_⟩, rfl, rfl, rfl,
      rfl, rfl, rfl, rfl, hrec, ?_⟩, rfl⟩
    · rw [Store.get_insert] at hv
      split at hv
      · rename_i heq
        cases heq
        exact le_rfl
      · rw [hp.get_eq (by simp), hnone] at hv
        cases hv
    · cases hmax : Store.reservations (store₁.insert m.key (.manifest m)) |>.max? with
      | none =>
        have := Store.mem_reservations.mpr (by rw [hkept]; rfl)
        rw [List.max?_eq_none_iff.mp hmax] at this
        cases this
      | some highest =>
        rw [hmax] at hdurable
        subst hdurable
        refine ⟨highest, (reservations_max hrec hmax).1, ?_⟩
        simp [Manifest.emptyWithSchema]
  · rw [hres] at h
    cases e <;> cases h

/-! ### Opening -/

theorem Durable.highWater {next : ℕ} (h : Durable store next) :
    ∃ highest, readRowIdHighWater store = .ok (some highest) ∧ next ≤ highest ∧
      Durable store highest := by
  obtain ⟨last, hget, hle⟩ := h.reaches
  have hmem := Store.mem_reservations.mpr (by rw [hget]; rfl)
  cases hmax : store.reservations.max? with
  | none =>
    rw [List.max?_eq_none_iff.mp hmax] at hmem
    cases hmem
  | some highest =>
    obtain ⟨hhigh, hbound⟩ := List.max?_eq_some_iff.mp hmax
    obtain ⟨object, hobject⟩ := Option.isSome_iff_exists.mp (Store.mem_reservations.mp hhigh)
    refine ⟨highest, readRowIdHighWater_eq_ok.mpr ⟨h.valid, hmax.symm⟩,
      hle.trans (hbound last hmem), h.valid, highest, ?_, le_rfl⟩
    rw [hobject, h.valid highest object hobject]

/-- The attempt counter is the recorded one if that is above all names: no attempt
is below a counter of zero. -/
theorem seedWriteAttemptCounter_of_below {version : ℕ}
    (h : ∀ n ∈ m.dataNames, NameBelow m.nextAttemptId version n) :
    seedWriteAttemptCounter m = .ok m.nextAttemptId := by
  unfold seedWriteAttemptCounter
  split
  · rfl
  · rename_i hne
    rw [not_or, not_ne_iff] at hne
    have hnone : m.dataNames.filterMap ObjectName.attempt? = [] := by
      rw [List.filterMap_eq_nil_iff]
      intro n hn
      have hbelow := h n hn
      rw [hne.1] at hbelow
      cases n <;> simp_all [NameBelow, ObjectName.attempt?]
    rw [hnone, hne.1]
    rfl

theorem Snapshot.Valid.seedWriteAttemptCounter (h : s.Valid P cat) :
    seedWriteAttemptCounter s.manifest = .ok s.manifest.nextAttemptId :=
  seedWriteAttemptCounter_of_below fun n hn => h.names_below n (List.mem_append_left _ hn)

/-- Opening the store of a valid latest version succeeds exactly when its files
kept the schema's metadata and the row ids are below the ceiling; the handle then
has that version as its current one. -/
theorem openDataset_eq_ok (hv : s.Valid P cat) (hs : cat.StoredIn store) (hl : Latest s store)
    {highest : ℕ} (hw : readRowIdHighWater store = .ok (some highest)) :
    openDataset P store = .ok d ↔
      cat.MetadataKept s.schema ∧
        max s.manifest.nextRowId highest ≤ maxReasonableRowIdCapacity ∧
        d = {
          store
          current := s
          log := CommitLog.new commitLogCapacity
          nextRowId := max s.manifest.nextRowId highest
          writeAttemptCounter := s.manifest.nextAttemptId
          lastIssuedTimestamp := s.manifest.commitTimeHighWater } := by
  have hsnapshot : ∀ index, index = s.index → ({
      version := s.manifest.version
      schema := s.manifest.schema
      manifest := s.manifest
      index
      tombstones := s.manifest.tombstones } : Snapshot) = s := by
    rintro _ rfl
    rw [hv.version_eq, hv.schema_eq, ← hv.tombstones_eq]
  unfold openDataset
  simp only [hl.readCurrent hv, lift, ok_bind, orElse, hw, hv.seedWriteAttemptCounter, bind_eq_ok,
    ensure_eq_ok, exists_const, pure_eq_ok, validateSchema_eq_ok]
  rw [hv.schema_eq]
  constructor
  · rintro ⟨_, hcap, index, hindex, rfl⟩
    obtain ⟨hmeta, hidx⟩ := (hv.validateCatalog hs).mp hindex
    have hsnap := hsnapshot index hidx
    rw [hv.schema_eq] at hsnap
    exact ⟨hmeta, hcap, by rw [hsnap]⟩
  · rintro ⟨hmeta, hcap, rfl⟩
    have hsnap := hsnapshot s.index rfl
    rw [hv.schema_eq] at hsnap
    exact ⟨hv.wellNamed, hcap, s.index, (hv.validateCatalog hs).mpr ⟨hmeta, rfl⟩, by rw [hsnap]⟩

end StrataDB.Txn
