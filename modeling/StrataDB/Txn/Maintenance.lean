import StrataDB.Txn.Agreement
import StrataDB.Txn.Retained

/-! Maintenance while snapshots are held. Vacuum and the reclamation of a
compaction put every live version through recovery's checks, all of them under
the schema of the current version. -/

namespace StrataDB.Txn

open Lib Arrow Index Storage

variable {P : Platform} {s s' : System}

/-- A version without row files passes under any schema; one with row files needs
the schema it was written under, with the schema's metadata in its files. -/
def Snapshot.PassesUnder (b : Snapshot) (logical : Schema) (store : Store) : Prop :=
  b.manifest.dataFiles = [] ∨ (b.schema = logical ∧ b.CarriesMetadata store)

/-! ### Protected versions -/

variable {b : Snapshot} {cat : Catalog} {logical : Schema} {clock : Option ℕ}
  {faults : CompactionFaults} {d d' : Dataset} {report : CompactionReport} {plan : List Candidate}
  {r : ℕ × ℕ}

theorem Snapshot.Valid.validateCatalog_iff {store : Store} (hv : b.Valid P cat)
    (hs : cat.StoredIn store)
    (hl : b.schema = logical ∨ b.schema.fields.length < logical.fields.length) :
    (∃ parts, Txn.validateCatalog P store b.manifest logical = .ok parts) ↔
      b.PassesUnder logical store := by
  have hnil : b.manifest.dataFiles = [] ↔ cat.files = [] := by rw [hv.files_eq, List.map_eq_nil_iff]
  by_cases hfiles : cat.files = []
  · exact ⟨fun _ => .inl (hnil.mpr hfiles), fun _ => ⟨_, hv.validateCatalog_of_nil hs hfiles _⟩⟩
  · rcases hl with rfl | hlt
    · constructor
      · rintro ⟨parts, hparts⟩
        have hmeta := ((hv.validateCatalog hs).mp hparts).1
        exact .inr ⟨rfl, (hv.carriesMetadata_iff hs).mpr hmeta⟩
      · rintro (hempty | ⟨_, hmeta⟩)
        · exact absurd (hnil.mp hempty) hfiles
        · exact ⟨_, (hv.validateCatalog hs).mpr ⟨(hv.carriesMetadata_iff hs).mp hmeta, rfl⟩⟩
    · constructor
      · rintro ⟨parts, hparts⟩
        exact absurd hparts (hv.validateCatalog_ne_ok hs hfiles hlt.ne')
      · rintro (hempty | ⟨heq, _⟩)
        · exact absurd (hnil.mp hempty) hfiles
        · rw [heq] at hlt
          exact absurd hlt (lt_irrefl _)

/-- A kept version can be protected exactly when it passes. -/
theorem Publication.KeptIn.protectVersion_iff {g : Publication} {store : Store}
    (hk : g.KeptIn store) (hv : g.snapshot.Valid P cat) (hs : cat.StoredIn g.store)
    (hl : g.snapshot.schema = logical ∨ g.snapshot.schema.fields.length < logical.fields.length) :
    (∃ names, protectVersion P store logical g.snapshot.version = .ok names) ↔
      g.snapshot.PassesUnder logical store := by
  rw [← hv.validateCatalog_iff (hk.storedIn hv hs) hl]
  have hlisted : g.snapshot.version ∈ store.versions := by
    rw [Store.mem_versions, hk.manifest]
    rfl
  unfold protectVersion
  rw [ensure_of _ hlisted, ok_bind, hk.readListed hv, ok_bind]
  constructor
  · rintro ⟨names, hnames⟩
    obtain ⟨parts, hparts, _⟩ := bind_eq_ok.mp hnames
    exact ⟨parts, hparts⟩
  · rintro ⟨parts, hparts⟩
    rw [hparts, ok_bind]
    exact ⟨_, rfl⟩

/-- The live versions can be protected exactly when each of them passes. -/
theorem System.Inv.protectVersions_iff (h : s.Inv P) {held : List Snapshot}
    (hheld : ∀ b ∈ held, b ∈ s.held) :
    (∃ kept, protectVersions P s.dataset.store s.dataset.current.schema
        (liveVersions s.dataset.current held) = .ok kept) ↔
      ∀ b ∈ s.dataset.current :: held,
        b.PassesUnder s.dataset.current.schema s.dataset.store := by
  have hone : ∀ b ∈ s.dataset.current :: held,
      ((∃ names, protectVersion P s.dataset.store s.dataset.current.schema b.version =
        .ok names) ↔ b.PassesUnder s.dataset.current.schema s.dataset.store) := by
    intro b hb
    have hb' : b ∈ s.dataset.current :: s.held := by
      rcases List.mem_cons.mp hb with rfl | hb
      · exact List.mem_cons_self
      · exact List.mem_cons_of_mem _ (hheld b hb)
    obtain ⟨g, hg, rfl, hlive⟩ := h.live_mem hb'
    obtain ⟨cat, hv, hstored⟩ := h.recorded.valid_of_mem hg
    obtain ⟨last, hlast, hcur, _⟩ := h.recorded.current
    refine (h.kept g hg hlive).protectVersion_iff hv hstored ?_
    rw [← hcur]
    exact h.recorded.chain.schema_or_fewer hlast hg
  have hmem : ∀ version, version ∈ liveVersions s.dataset.current held ↔
      ∃ b ∈ s.dataset.current :: held, b.version = version := by
    intro version
    rw [liveVersions, List.mem_insertionSort, List.mem_dedup, List.mem_map]
  have hall : (∃ kept, protectVersions P s.dataset.store s.dataset.current.schema
      (liveVersions s.dataset.current held) = .ok kept) ↔
        ∀ version ∈ liveVersions s.dataset.current held, ∃ names,
          protectVersion P s.dataset.store s.dataset.current.schema version = .ok names := by
    rw [← exists_mapM_eq_ok]
    unfold protectVersions
    constructor
    · rintro ⟨kept, hkept⟩
      obtain ⟨keys, hkeys, _⟩ := bind_eq_ok.mp hkept
      exact ⟨keys, hkeys⟩
    · rintro ⟨keys, hkeys⟩
      rw [hkeys, ok_bind]
      exact ⟨_, rfl⟩
  rw [hall]
  constructor
  · intro hversions b hb
    exact (hone b hb).mp (hversions b.version ((hmem _).mpr ⟨b, hb, rfl⟩))
  · intro hpass version hversion
    obtain ⟨b, hb, rfl⟩ := (hmem version).mp hversion
    exact (hone b hb).mpr (hpass b hb)

theorem System.Inv.protected_present (h : s.Inv P) {held : List Snapshot}
    (hheld : ∀ b ∈ held, b ∈ s.held) {kept : List ObjectName}
    (hkept : protectVersions P s.dataset.store logical (liveVersions s.dataset.current held) =
      .ok kept) :
    ∀ n ∈ kept, n ∈ s.dataset.store.dataObjects := by
  simp only [protectVersions, bind_eq_ok, pure_eq_ok] at hkept
  obtain ⟨keys, hkeys, rfl⟩ := hkept
  intro n hn
  obtain ⟨names, hnames, hn⟩ := List.mem_flatten.mp hn
  obtain ⟨version, hversion, hprotect⟩ := exists_left_of_forall₂ (mapM_eq_ok.mp hkeys) hnames
  rw [liveVersions, List.mem_insertionSort, List.mem_dedup, List.mem_map] at hversion
  obtain ⟨b, hb, rfl⟩ := hversion
  have hb' : b ∈ s.dataset.current :: s.held := by
    rcases List.mem_cons.mp hb with rfl | hb
    · exact List.mem_cons_self
    · exact List.mem_cons_of_mem _ (hheld b hb)
  obtain ⟨g, hg, rfl, hlive⟩ := h.live_mem hb'
  obtain ⟨cat, hv, hstored⟩ := h.recorded.valid_of_mem hg
  have hk := h.kept g hg hlive
  simp only [protectVersion, bind_eq_ok, pure_eq_ok, hk.readListed hv, Except.ok.injEq] at hprotect
  obtain ⟨_, _, m, rfl, _, _, rfl⟩ := hprotect
  obtain ⟨object, hobject⟩ := hv.object_stored (hk.storedIn hv hstored) hn
  rw [Store.mem_dataObjects, hobject]
  rfl

/-! ### Vacuum -/

theorem System.Inv.vacuum_iff (h : s.Inv P) (hfit : SizesFit P s.dataset.store) :
    (∃ report d, vacuum P s.held (fun _ => .none) s.dataset = (.ok report, d)) ↔
      ∀ b ∈ s.dataset.current :: s.held,
        b.PassesUnder s.dataset.current.schema s.dataset.store := by
  rw [← h.protectVersions_iff fun _ hb => hb]
  constructor
  · rintro ⟨report, d, hrun⟩
    unfold vacuum at hrun
    rw [Effect.reads_bind, id] at hrun
    obtain ⟨candidates, _, hplan, _⟩ := Effect.bind_eq_ok.mp hrun
    rw [Effect.lift_apply, Prod.mk.injEq] at hplan
    obtain ⟨kept, hkept, _⟩ := bind_eq_ok.mp hplan.1
    exact ⟨kept, hkept⟩
  · rintro ⟨kept, hkept⟩
    obtain ⟨listed, hlisted, _⟩ := h.recorded.reachableFrom fun v hv =>
      (listedVersions_perm s.dataset.store).mem_iff.mp hv
    have hsub : (s.dataset.store.dataObjects.filter fun n => n ∉ kept ++ listed).Sublist
        s.dataset.store.dataObjects := List.filter_sublist
    obtain ⟨r, d, hrun⟩ := deleteData_ok ((dataObjects_nodup _).sublist hsub)
      (fun n hn => List.mem_of_mem_filter hn) (hsub.length_le.trans_lt hfit.data_count)
      (((hsub.map _).sum_le_sum fun _ _ => Nat.zero_le _).trans_lt hfit.data_bytes)
    have hplan : vacuumPlan P s.dataset.current s.held s.dataset.store =
        .ok (((s.dataset.store.dataObjects.filter fun n => n ∉ kept ++ listed).map fun n =>
          (Key.data n, sizeOf P s.dataset.store (.data n))).map .ok) := by
      unfold vacuumPlan
      rw [hkept, ok_bind, hlisted, ok_bind, List.map_map]
      rfl
    unfold vacuum
    rw [Effect.reads_bind, id, hplan, Effect.bind_of_ok (Effect.lift_apply _ _),
      Effect.bind_of_ok hrun]
    exact ⟨_, d, rfl⟩

/-! ### Compaction -/

/-- A compaction that succeeded published, planned and deleted. -/
theorem compact_eq_ok {held : List Snapshot}
    (h : compact P true held clock faults d = (.ok report, d')) :
    ∃ published d₁ plan r, publishCompaction P clock faults d = (.ok published, d₁) ∧
      reclaimPlan P d₁.current.schema (liveVersions d₁.current held) d₁.store = .ok plan ∧
      deleteCandidates faults.deletes 0 0 0 plan d₁ = (.ok r, d') := by
  unfold compact at h
  rw [ensure_of _ rfl, Effect.bind_of_ok (Effect.lift_apply _ _)] at h
  obtain ⟨published, d₁, hpub, h⟩ := Effect.bind_eq_ok.mp h
  rw [Effect.reads_bind, id] at h
  obtain ⟨plan, _, hplan, h⟩ := Effect.bind_eq_ok.mp h
  rw [Effect.lift_apply, Prod.mk.injEq] at hplan
  obtain ⟨hplan, rfl⟩ := hplan
  obtain ⟨r, _, hdel, h⟩ := Effect.bind_eq_ok.mp h
  obtain ⟨-, rfl⟩ := Prod.mk.inj h
  exact ⟨published, d₁, plan, r, hpub, hplan, hdel⟩

theorem compact_of_parts {held : List Snapshot} {d₁ : Dataset} {published : CompactionReport}
    (hpub : publishCompaction P clock faults d = (.ok published, d₁))
    (hplan : reclaimPlan P d₁.current.schema (liveVersions d₁.current held) d₁.store = .ok plan)
    (hdel : deleteCandidates faults.deletes 0 0 0 plan d₁ = (.ok r, d')) :
    ∃ report, compact P true held clock faults d = (.ok report, d') := by
  unfold compact
  rw [ensure_of _ rfl, Effect.bind_of_ok (Effect.lift_apply _ _), Effect.bind_of_ok hpub,
    Effect.reads_bind, id, hplan, Effect.bind_of_ok (Effect.lift_apply _ _),
    Effect.bind_of_ok hdel]
  exact ⟨_, rfl⟩

/-- The deletions of a reclamation are among those it would make with fewer
snapshots held. -/
theorem System.Inv.reclaim_ok (h : s.Inv P)
    (halone : reclaimPlan P s.dataset.current.schema (liveVersions s.dataset.current [])
      s.dataset.store = .ok plan)
    (hdel : deleteCandidates (fun _ => .none) 0 0 0 plan s.dataset = (.ok r, d))
    (hpass : ∀ b ∈ s.held, b.PassesUnder s.dataset.current.schema s.dataset.store) :
    ∃ plan' r' d', reclaimPlan P s.dataset.current.schema s.live s.dataset.store = .ok plan' ∧
      deleteCandidates (fun _ => .none) 0 0 0 plan' s.dataset = (.ok r', d') := by
  have hnone : ∀ b ∈ ([] : List Snapshot), b ∈ s.held := by simp
  simp only [reclaimPlan, bind_eq_ok, pure_eq_ok] at halone
  obtain ⟨kept, hkept, listed, hlisted, rfl⟩ := halone
  have hcurrent := (h.protectVersions_iff hnone).mp ⟨kept, hkept⟩ _ List.mem_cons_self
  obtain ⟨kept', hkept'⟩ := (h.protectVersions_iff fun _ hb => hb).mpr
    (List.forall_mem_cons.mpr ⟨hcurrent, hpass⟩)
  rw [filterMap_reclaimCandidate (h.protected_present hnone hkept)] at hdel
  obtain ⟨hcount, hbytes⟩ := deleteCandidates_fits hdel (by decide) (by decide)
  rw [List.length_map, Nat.zero_add] at hcount
  rw [List.map_map, Nat.zero_add] at hbytes
  -- The current version is protected in both, so more held snapshots keep more.
  have hmore : ∀ n ∈ kept, n ∈ kept' := by
    intro n hn
    obtain ⟨g, hg, hcur, hlive⟩ := h.live_mem List.mem_cons_self
    obtain ⟨cat, hv, _⟩ := h.recorded.valid_of_mem hg
    have hread := (h.kept g hg hlive).readListed hv
    refine protectVersions_keeps hkept' hlive hread n ?_
    simp only [protectVersions, bind_eq_ok, pure_eq_ok] at hkept
    obtain ⟨keys, hkeys, rfl⟩ := hkept
    have hversions : liveVersions s.dataset.current [] = [g.snapshot.version] := by
      rw [hcur]
      rfl
    rw [hversions] at hkeys
    simp only [List.mapM_cons, List.mapM_nil, protectVersion, hread, bind_eq_ok, pure_eq_ok,
      Except.ok.injEq] at hkeys
    obtain ⟨_, ⟨_, _, _, rfl, _, _, rfl⟩, _, rfl, rfl⟩ := hkeys
    simpa using hn
  have hsub : (listed.dedup.filter fun n => n ∈ s.dataset.store.dataObjects ∧ n ∉ kept').Sublist
      (listed.dedup.filter fun n => n ∈ s.dataset.store.dataObjects ∧ n ∉ kept) := by
    refine List.monotone_filter_right _ fun n hn => ?_
    simp only [decide_eq_true_eq] at hn ⊢
    exact ⟨hn.1, fun hmem => hn.2 (hmore n hmem)⟩
  obtain ⟨r', d', hrun⟩ := deleteData_ok (P := P) (d := s.dataset)
    ((List.nodup_dedup listed).filter fun n => n ∈ s.dataset.store.dataObjects ∧ n ∉ kept')
    (fun n hn => (of_decide_eq_true (List.mem_filter.mp hn).2).1) (hsub.length_le.trans_lt hcount)
    (((hsub.map _).sum_le_sum fun _ _ => Nat.zero_le _).trans_lt hbytes)
  refine ⟨_, r', d', ?_, hrun⟩
  unfold reclaimPlan
  rw [show s.live = liveVersions s.dataset.current s.held from rfl, hkept', ok_bind, hlisted,
    ok_bind, filterMap_reclaimCandidate (h.protected_present (fun _ hb => hb) hkept')]
  rfl

theorem Snapshot.PassesUnder.congr {store store' : Store} (h : b.PassesUnder logical store)
    (hsame : ∀ n ∈ b.manifest.objectNames, store'.get (.data n) = store.get (.data n)) :
    b.PassesUnder logical store' := by
  rcases h with hempty | ⟨heq, hmeta⟩
  · exact .inl hempty
  · refine .inr ⟨heq, fun e he batch hbatch => hmeta e he batch ?_⟩
    rwa [hsame e.name (List.mem_append_left _ (List.mem_map_of_mem he))] at hbatch

/-- A compaction that would succeed with no snapshot held succeeds exactly when
every held version passes under the current schema. -/
theorem compact_iff (hreach : (system P).Reachable s) (hquiet : s.quiet = true)
    (halone : compact P true [] clock {} s.dataset = (.ok report, d)) :
    (∃ report' d', compact P true s.held clock {} s.dataset = (.ok report', d')) ↔
      ∀ b ∈ s.held, b.PassesUnder s.dataset.current.schema s.dataset.store := by
  obtain ⟨published, d₁, plan, r, hpub, hplan, hdel⟩ := compact_eq_ok halone
  set s' : System :=
    { s with dataset := d₁, executor := .compacted, history := s.record d₁ .compaction } with hs'
  have hstep : (system P).step s (.compact clock {}) = some s' := by
    show systemStep P s (.compact clock {}) = some s'
    simp only [systemStep, lifecycleStep, hquiet, hpub, if_true]
    rfl
  have hi := System.inv_of_reachable hreach
  have hi' := System.inv_of_reachable (hreach.step hstep)
  have hschema : d₁.current.schema = s.dataset.current.schema := by
    obtain ⟨last, cat, _, _, _, hv, _, hstored⟩ := hi.recorded.current_valid
    rcases publishCompaction_cases hv hstored hi.recorded.rowIds_le hi.recorded.latest.free hpub
      with ⟨d₂, ts, files, segment, _, _, rfl, _⟩ | ⟨⟨e, he⟩, _⟩
    · rfl
    · cases he
  have hsame : ∀ b ∈ s.held, ∀ n ∈ b.manifest.objectNames,
      d₁.store.get (.data n) = s.dataset.store.get (.data n) := by
    intro b hb n hn
    obtain ⟨g, hg, rfl, hlive⟩ := hi.live_mem (List.mem_cons_of_mem _ hb)
    have hg' : g ∈ s'.history := by
      show g ∈ s.record d₁ .compaction
      unfold System.record
      split
      · exact hg
      · exact List.mem_append_left _ hg
    have hlive' : g.snapshot.version ∈ s'.live := System.mem_live.mpr (.inr ⟨_, hb, rfl⟩)
    rw [(hi.kept g hg hlive).objects n hn]
    exact (hi'.kept g hg' hlive').objects n hn
  constructor
  · rintro ⟨report', d', hrun⟩ b hb
    obtain ⟨published', d₁', plan', _, hpub', hplan', _⟩ := compact_eq_ok hrun
    rw [hpub] at hpub'
    cases hpub'
    obtain ⟨kept, hkept, _⟩ := bind_eq_ok.mp hplan'
    have hpass := (hi'.protectVersions_iff fun _ hb => hb).mp ⟨kept, hkept⟩ b
      (List.mem_cons_of_mem _ hb)
    rw [← hschema]
    exact hpass.congr fun n hn => (hsame b hb n hn).symm
  · intro hpass
    have hpass' : ∀ b ∈ s'.held, b.PassesUnder d₁.current.schema d₁.store := by
      intro b hb
      rw [hschema]
      exact (hpass b hb).congr (hsame b hb)
    obtain ⟨plan', r', d', hplan', hdel'⟩ := hi'.reclaim_ok hplan hdel hpass'
    obtain ⟨report', hrun⟩ := compact_of_parts hpub hplan' hdel'
    exact ⟨report', d', hrun⟩

/-- With no lifecycle operation or commit under way: a vacuum succeeds exactly
when every live version passes under the current schema, and so does a compaction
that would succeed with no snapshot held. -/
theorem maintenance_iff_passes (h : (system P).Reachable s) (hquiet : s.quiet = true) :
    (SizesFit P s.dataset.store →
      ((∃ report d, vacuum P s.held (fun _ => .none) s.dataset = (.ok report, d)) ↔
        ∀ b ∈ s.dataset.current :: s.held,
          b.PassesUnder s.dataset.current.schema s.dataset.store)) ∧
      ∀ clock report d, compact P true [] clock {} s.dataset = (.ok report, d) →
        ((∃ report' d', compact P true s.held clock {} s.dataset = (.ok report', d')) ↔
          ∀ b ∈ s.held, b.PassesUnder s.dataset.current.schema s.dataset.store) :=
  ⟨(System.inv_of_reachable h).vacuum_iff, fun _ _ _ halone => compact_iff h hquiet halone⟩

/-- A snapshot taken before the migration, then the migration. -/
def heldMigration : List Label :=
  [.acquire, .migrate (.addNullableColumn 1 2 (Field.new "note" .utf8 true)) (some 5) {}]

/-- The held version is the empty one, and passes; the rows were committed after it. -/
theorem maintenance_iff_passes_empty :
    ∃ s, plainRun idSchema (.acquire :: insertLabels (idBatch [10, 20])) = some s ∧
      s.held ≠ [] ∧ s.dataset.current.manifest.dataFiles ≠ [] ∧
      (∃ report d, vacuum plainPlatform s.held (fun _ => .none) s.dataset = (.ok report, d)) ∧
      ∃ report d, compact plainPlatform true s.held (some 6) {} s.dataset = (.ok report, d) := by
  have hrun : (plainRun idSchema (.acquire :: insertLabels (idBatch [10, 20]))).map (fun s =>
      (s.quiet, s.dataset.current.manifest.dataFiles.map (fun e => decide
          ((readBatch s.dataset.store e.name).toOption.map (·.schema.metadata) =
            some s.dataset.current.schema.metadata)),
        s.held.map fun b => b.manifest.dataFiles.length)) = some (true, [true], [0]) := by
    decide +kernel
  have halone : ((plainRun idSchema (.acquire :: insertLabels (idBatch [10, 20]))).map fun s =>
      ((compact plainPlatform true [] (some 6) {} s.dataset).1.isOk,
        s.dataset.store.keys.length,
        (s.dataset.store.keys.map (sizeOf plainPlatform s.dataset.store)).sum)) =
      some (true, 5, 26) := by
    decide +kernel
  obtain ⟨s, hs, hout⟩ := Option.map_eq_some_iff.mp hrun
  simp only [Prod.mk.injEq] at hout
  obtain ⟨hquiet, hfiles, hheld⟩ := hout
  rw [hs] at halone
  simp only [Option.map_some, Option.some.injEq, Prod.mk.injEq] at halone
  obtain ⟨hok, hcount, hbytes⟩ := halone
  have hpass : ∀ b ∈ s.dataset.current :: s.held,
      b.PassesUnder s.dataset.current.schema s.dataset.store := by
    rintro b (_ | ⟨_, hb⟩)
    · refine .inr ⟨rfl, fun e he batch hbatch => ?_⟩
      have hread : readBatch s.dataset.store e.name = .ok batch := by rw [readBatch, hbatch]
      have hmeta := of_decide_eq_true (List.mem_singleton.mp
        (hfiles ▸ List.mem_map.mpr ⟨e, he, rfl⟩))
      rw [hread] at hmeta
      exact Option.some.inj hmeta
    · have hlen : b.manifest.dataFiles.length ∈ [0] := hheld ▸ List.mem_map_of_mem hb
      exact .inl (List.length_eq_zero_iff.mp (List.mem_singleton.mp hlen))
  have hboth := maintenance_iff_passes (reachable_runOn hs) hquiet
  obtain ⟨report, hreport⟩ := exists_ok_of_isOk hok
  refine ⟨s, hs, fun hnil => ?_, fun hnil => ?_,
    (hboth.1 ⟨by rw [hcount]; decide, by rw [hbytes]; decide⟩).mpr
    hpass, (hboth.2 (some 6) report _ (Prod.ext hreport rfl)).mpr fun b hb =>
      hpass b (List.mem_cons_of_mem _ hb)⟩
  · rw [hnil] at hheld
    cases hheld
  · rw [hnil] at hfiles
    cases hfiles

/-- A snapshot with a row file is held across the migration: the vacuum fails, and
the compaction, which would succeed without it, fails after it has published. -/
theorem maintenance_fails_across_migration :
    ∃ s, plainRun idSchema (insertLabels (idBatch [10, 20]) ++ heldMigration) = some s ∧
      s.quiet = true ∧
      (∃ e, (vacuum plainPlatform s.held (fun _ => .none) s.dataset).1 = .error e) ∧
      (∃ report, (compact plainPlatform true [] (some 6) {} s.dataset).1 = .ok report) ∧
      (∃ e, (compact plainPlatform true s.held (some 6) {} s.dataset).1 = .error e) ∧
      (compact plainPlatform true s.held (some 6) {} s.dataset).2.current.version =
        s.dataset.current.version + 1 := by
  have hrun : (plainRun idSchema (insertLabels (idBatch [10, 20]) ++ heldMigration)).map (fun s =>
      (s.quiet, (vacuum plainPlatform s.held (fun _ => .none) s.dataset).1.isOk,
        (compact plainPlatform true [] (some 6) {} s.dataset).1.isOk,
        (compact plainPlatform true s.held (some 6) {} s.dataset).1.isOk,
        decide ((compact plainPlatform true s.held (some 6) {} s.dataset).2.current.version =
          s.dataset.current.version + 1))) = some (true, false, true, false, true) := by
    decide +kernel
  obtain ⟨s, hs, hout⟩ := Option.map_eq_some_iff.mp hrun
  simp only [Prod.mk.injEq, decide_eq_true_eq] at hout
  obtain ⟨hquiet, hvacuum, halone, hcompact, hversion⟩ := hout
  exact ⟨s, hs, hquiet, exists_error_of_isOk_eq_false hvacuum, exists_ok_of_isOk halone,
    exists_error_of_isOk_eq_false hcompact, hversion⟩

end StrataDB.Txn
