import StrataDB.Txn.Growth

/-! Retention after compactions. The planner wants every object that a manifest on
storage lists; compaction's reclamation is the one deletion that can take such an
object away. -/

namespace StrataDB.Txn

open Lib Arrow Index Storage

variable {P : Platform} {s s' : System}

/-! ### Manifests on storage -/

variable {d : Dataset} {hs : List Publication} {keep : ℕ} {store store' : Store} {n : ObjectName}
  {label : Label}

/-- A listed manifest is that of a publication, reads back and lists no object
twice. -/
theorem Recorded.listed_manifest (hr : Recorded P d hs) {version : ℕ}
    (hv : version ∈ d.store.versions) :
    ∃ m, d.store.get (.manifest version) = some (.manifest m) ∧
      readListed P d.store version = .ok m ∧ reachableKeys m = .ok m.objectNames := by
  obtain ⟨object, hobject⟩ := Option.isSome_iff_exists.mp (Store.mem_versions.mp hv)
  obtain ⟨g, hg, rfl, rfl⟩ := hr.listed version object hobject
  obtain ⟨cat, hvalid, _⟩ := hr.valid_of_mem hg
  exact ⟨_, hobject, readListed_eq_ok.mpr ⟨hobject, hvalid.decodes⟩,
    reachableKeys_eq_ok.mpr ⟨hvalid.names_nodup, rfl⟩⟩

/-- An object that some manifest on storage lists. -/
def Listed (store : Store) (n : ObjectName) : Prop :=
  ∃ version m, store.get (.manifest version) = some (.manifest m) ∧ n ∈ m.objectNames

theorem Recorded.reachableFrom (hr : Recorded P d hs) {versions : List ℕ}
    (hv : ∀ v ∈ versions, v ∈ d.store.versions) :
    ∃ names, reachableFrom P d.store versions = .ok names ∧ ∀ n, n ∈ names ↔
      ∃ version ∈ versions, ∃ m, d.store.get (.manifest version) = some (.manifest m) ∧
        n ∈ m.objectNames := by
  have hone : ∀ v ∈ versions, ∃ names,
      (do let m ← readListed P d.store v; reachableKeys m) = .ok names ∧
        ∀ n, n ∈ names ↔ ∃ m, d.store.get (.manifest v) = some (.manifest m) ∧
          n ∈ m.objectNames := by
    intro v hmem
    obtain ⟨m, hget, hread, hkeys⟩ := hr.listed_manifest (hv v hmem)
    refine ⟨m.objectNames, by rw [hread]; exact hkeys, fun n => ⟨fun hn => ⟨m, hget, hn⟩, ?_⟩⟩
    rintro ⟨m', hget', hn⟩
    rw [hget] at hget'
    cases hget'
    exact hn
  obtain ⟨keys, hkeys, hall⟩ := mapM_ok_of_exists hone
  refine ⟨keys.flatten, ?_, fun n => ?_⟩
  · unfold Txn.reachableFrom
    rw [hkeys]
    rfl
  · rw [List.mem_flatten]
    constructor
    · rintro ⟨names, hnames, hn⟩
      obtain ⟨v, hvmem, hspec⟩ := exists_left_of_forall₂ hall hnames
      exact ⟨v, hvmem, (hspec n).mp hn⟩
    · rintro ⟨v, hvmem, hm⟩
      obtain ⟨names, hnames, hspec⟩ := exists_right_of_forall₂ hall hvmem
      exact ⟨names, hnames, (hspec n).mpr hm⟩

/-! ### The planner -/

/-- With every listed object on storage, and sizes within range, planning
succeeds for every number of versions to keep. -/
theorem Recorded.buildPlan_ok (hr : Recorded P d hs) {held : List Snapshot} (hkeep : keep ≠ 0)
    (hlive : ∀ v ∈ liveVersions d.current held, v ∈ d.store.versions)
    (hobjects : ∀ n, Listed d.store n → n ∈ d.store.dataObjects) (hfit : SizesFit P d.store) :
    ∃ plan, buildPlan P keep d.current held d.store = .ok plan := by
  have hlisted : ∀ v ∈ listedVersions d.store, v ∈ d.store.versions := fun v hv =>
    (listedVersions_perm d.store).mem_iff.mp hv
  have hretained : ∀ v ∈ (latestVersions (listedVersions d.store) keep ++
      liveVersions d.current held).dedup.insertionSort (· ≤ ·), v ∈ d.store.versions := by
    intro v hv
    rw [List.mem_insertionSort, List.mem_dedup, List.mem_append] at hv
    rcases hv with hv | hv
    · exact hlisted v (List.mem_of_mem_drop hv)
    · exact hlive v hv
  have hone : ∀ v ∈ (latestVersions (listedVersions d.store) keep ++
      liveVersions d.current held).dedup.insertionSort (· ≤ ·), ∃ names,
      retainVersion P d.store v = .ok names ∧ ∀ n ∈ names, Listed d.store n := by
    intro v hv
    obtain ⟨m, hget, hread, hkeys⟩ := hr.listed_manifest (hretained v hv)
    refine ⟨m.objectNames, ?_, fun n hn => ⟨v, m, hget, hn⟩⟩
    unfold retainVersion
    rw [ensure_of _ (hretained v hv), ok_bind, hread, ok_bind, hkeys]
  obtain ⟨keys, hkeys, hall⟩ := mapM_ok_of_exists hone
  have heligible : ∀ v ∈ (listedVersions d.store).filter (fun version =>
      version < d.current.version ∧ version ∉ (latestVersions (listedVersions d.store) keep ++
        liveVersions d.current held).dedup.insertionSort (· ≤ ·)), v ∈ d.store.versions :=
    fun v hv => hlisted v (List.mem_of_mem_filter hv)
  obtain ⟨older, holder, hspec⟩ := hr.reachableFrom heligible
  obtain ⟨r, hclass⟩ := classifyDataObjects_ok keys.flatten older 0 0
    (by simpa using hfit.data_count) (by simpa using hfit.data_bytes)
  have hpresent : ensureReachableObjectsAreListed d.store (keys.flatten ++ older) = .ok () := by
    rw [ensureReachableObjectsAreListed, forM_eq_ok]
    intro n hn
    rw [ensure_eq_ok]
    refine hobjects n ?_
    rcases List.mem_append.mp hn with hn | hn
    · obtain ⟨names, hnames, hn⟩ := List.mem_flatten.mp hn
      obtain ⟨v, _, hlist⟩ := exists_left_of_forall₂ hall hnames
      exact hlist n hn
    · obtain ⟨v, _, m, hget, hm⟩ := (hspec n).mp hn
      exact ⟨v, m, hget, hm⟩
  unfold buildPlan
  rw [ensure_of _ hkeep, ok_bind]
  dsimp only
  rw [hkeys, ok_bind, holder, ok_bind, hclass, ok_bind, hpresent, ok_bind]
  exact ⟨_, rfl⟩

theorem Recorded.prune_ok (hr : Recorded P d hs) {held : List Snapshot} (hkeep : keep ≠ 0)
    (hlive : ∀ v ∈ liveVersions d.current held, v ∈ d.store.versions)
    (hobjects : ∀ n, Listed d.store n → n ∈ d.store.dataObjects) (hfit : SizesFit P d.store) :
    ∃ report d', pruneManifests P keep held (fun _ => .none) d = (.ok report, d') := by
  obtain ⟨plan, hplan⟩ := hr.buildPlan_ok hkeep hlive hobjects hfit
  obtain ⟨hnodup, heligible⟩ := buildPlan_eligible hplan
  have hauthority : buildManifestPruneAuthority P keep d.current held d.store =
      .ok plan.eligibleManifestVersions := by
    unfold buildManifestPruneAuthority
    rw [hplan, ok_bind, bind_eq_ok]
    refine ⟨(), forM_eq_ok.mpr fun v hv => ?_, rfl⟩
    exact ensure_eq_ok.mpr (heligible v hv).1
  have hbytes : 0 + (plan.eligibleManifestVersions.map
      fun v => sizeOf P d.store (.manifest v)).sum < u64Bound := by
    rw [Nat.zero_add]
    exact (sum_map_le_of_subset hnodup (fun v hv => (heligible v hv).1) _).trans_lt
      hfit.manifest_bytes
  obtain ⟨bytes, hbytes⟩ := totalManifestBytes_ok 0 hbytes
  obtain ⟨r, d', hrun⟩ := deleteManifests_ok hnodup d
    (fun v hv => Store.mem_versions.mp (heligible v hv).1) 0
  unfold pruneManifests deleteAuthorizedManifests
  rw [Effect.reads_bind, id, hauthority, Effect.bind_of_ok (Effect.lift_apply _ d),
    Effect.reads_bind, id, hbytes, Effect.bind_of_ok (Effect.lift_apply _ d),
    Effect.bind_of_ok hrun]
  exact ⟨_, d', rfl⟩

/-! ### Listed objects along a run -/

theorem Listed.mono (h : Listed store' n)
    (hm : ∀ version object, store'.get (.manifest version) = some object →
      store.get (.manifest version) = some object) :
    Listed store n := by
  obtain ⟨version, m, hget, hn⟩ := h
  exact ⟨version, m, hm version _ hget, hn⟩

theorem Listed.of_erase {key : Key} (h : Listed (store.erase key) n) : Listed store n := by
  refine h.mono fun version object hget => ?_
  rw [Store.get_erase] at hget
  split at hget
  · cases hget
  · exact hget

/-- A name that no publication lists is not listed on storage. -/
theorem Recorded.not_listed (hr : Recorded P d hs) {names : ObjectName → Prop}
    (hfree : ∀ g ∈ hs, ∀ n ∈ g.snapshot.manifest.objectNames, ¬ names n) (hn : Listed d.store n) :
    ¬ names n := by
  obtain ⟨version, m, hget, hmem⟩ := hn
  obtain ⟨g, hg, _, hm⟩ := hr.listed version _ hget
  cases hm
  exact hfree g hg n hmem

/-- Every listed object is on storage, and none of them is about to be deleted. -/
structure Intact (s : System) : Prop where
  objects : ∀ n, Listed s.dataset.store n → (s.dataset.store.get (.data n)).isSome = true
  remaining : ∀ n size, .ok (.data n, size) ∈ s.executor.remaining → ¬ Listed s.dataset.store n

/-- A reclamation is safe if a live version lists every object that some manifest
on storage lists. -/
def SafeReclaim (s : System) (label : Label) : Prop :=
  label = .reclaim → ∀ n, Listed s.dataset.store n →
    ∃ b ∈ s.dataset.current :: s.held, n ∈ b.manifest.objectNames

/-- No plan but an unsafe reclamation deletes a listed object. -/
theorem System.Inv.plan_unlisted (h : s.Inv P) (hsafe : SafeReclaim s label)
    {candidates : List Candidate} (hplan : System.planOf P s label = some (.ok candidates))
    {size : ℕ} (hc : .ok (.data n, size) ∈ candidates) : ¬ Listed s.dataset.store n := by
  intro hlisted
  have hprune : ∀ versions : Except TxnError (List ℕ),
      prunePlan P s.dataset.store versions ≠ .ok candidates := by
    intro versions hp
    have hnone : ∀ vs, versions = .ok vs → ∀ version ∈ vs, version ∉ ([] : List ℕ) := by simp
    obtain ⟨version, hkey, _⟩ := prunePlan_keeps hnone hp hc
    cases hkey
  cases label with
  | reclaim =>
    obtain ⟨n', hn', hkeeps⟩ := reclaimPlan_keeps (Option.some.inj hplan) hc
    cases hn'
    obtain ⟨b, hb, hmem⟩ := hsafe rfl n hlisted
    obtain ⟨g, hg, rfl, hlive⟩ := h.live_mem hb
    obtain ⟨cat, hv, _⟩ := h.recorded.valid_of_mem hg
    exact hkeeps _ hlive _ ((h.kept g hg hlive).readListed hv) hmem
  | prune keep => exact hprune _ (Option.some.inj hplan)
  | pruneByAge keep maxAgeUs clock => exact hprune _ (Option.some.inj hplan)
  | vacuum =>
    have hvacuum := Option.some.inj hplan
    simp only [vacuumPlan, bind_eq_ok, pure_eq_ok] at hvacuum
    obtain ⟨kept, _, listed, hlist, rfl⟩ := hvacuum
    obtain ⟨n', hn', heq⟩ := List.mem_map.mp hc
    cases heq
    obtain ⟨names, hnames, hiff⟩ := h.recorded.reachableFrom fun v hv =>
      (listedVersions_perm s.dataset.store).mem_iff.mp hv
    rw [hnames] at hlist
    cases hlist
    obtain ⟨version, m, hget, hmem⟩ := hlisted
    have hver : version ∈ listedVersions s.dataset.store := by
      rw [(listedVersions_perm _).mem_iff, Store.mem_versions, hget]
      rfl
    have hin := (hiff n).mpr ⟨version, hver, m, hget, hmem⟩
    simp [hin] at hn'
  | _ => cases hplan

/-- A publication lists objects that it wrote or that were listed before. -/
theorem Intact.grows (h : Intact s) (hi : s.Inv P) {new : Publication} {cat cat' : Catalog}
    (hg : s.Grows P s' label new cat cat') : Intact s' := by
  obtain ⟨names, d, writeSet, hadv, hfree, hd⟩ := hg.dataset
  refine ⟨fun n hn => ?_, fun n size hc => ?_⟩
  · obtain ⟨version, m, hget, hmem⟩ := hn
    rw [hd, Dataset.published, Store.get_insert] at hget
    split at hget
    · cases hget
      obtain ⟨object, hobject⟩ := hg.valid.object_stored hg.stored hmem
      rw [← hg.store, hobject]
      rfl
    · rw [hadv.manifest_eq] at hget
      have hlisted : Listed s.dataset.store n := ⟨version, m, hget, hmem⟩
      rw [hd, Dataset.published, Store.get_insert_of_ne _ _ (by simp [Manifest.key]),
        hadv.data_eq n (hi.recorded.not_listed hfree hlisted)]
      exact h.objects n hlisted
  · rw [hg.remaining] at hc
    cases hc

/-- Without a publication fewer objects are listed, and those stay. -/
theorem Intact.storeStep (h : Intact s) (hi : s.Inv P) (hs : System.StoreStep s s') :
    (∀ n, Listed s'.dataset.store n → Listed s.dataset.store n) ∧
      ∀ n, Listed s'.dataset.store n → (s'.dataset.store.get (.data n)).isSome = true := by
  cases hs with
  | kept hstore _ =>
    rw [hstore]
    exact ⟨fun _ hn => hn, h.objects⟩
  | advanced hadv hfree =>
    have hsub : ∀ n, Listed s'.dataset.store n → Listed s.dataset.store n := fun n hn =>
      hn.mono fun version object hget => by rwa [hadv.manifest_eq] at hget
    refine ⟨hsub, fun n hn => ?_⟩
    rw [hadv.data_eq n (hi.recorded.not_listed hfree (hsub n hn))]
    exact h.objects n (hsub n hn)
  | @erased key size rest hexec hstore _ =>
    rw [hstore]
    refine ⟨fun n hn => hn.of_erase, fun n hn => isSome_erase ?_ (h.objects n hn.of_erase)⟩
    rintro rfl
    refine h.remaining n size ?_ hn.of_erase
    rw [hexec]
    exact List.mem_cons_self

theorem Intact.step (h : Intact s) (hi : s.Inv P) (hsafe : SafeReclaim s label)
    (hs : systemStep P s label = some s') : Intact s' := by
  rcases hi.step_effect hs with ⟨new, cat, cat', hg⟩ | ⟨_, heffect⟩
  · exact h.grows hi hg
  · obtain ⟨hsub, hobjects⟩ := h.storeStep hi heffect
    refine ⟨hobjects, fun n size hc hn => ?_⟩
    rcases System.step_remaining hs hc with hc | ⟨candidates, hplan, hc⟩
    · exact h.remaining n size hc (hsub n hn)
    · exact hi.plan_unlisted hsafe hplan hc (hsub n hn)

theorem intact_created {schema : Schema} {capacity : ℕ} {clock : Option ℕ} {faults : CreateFaults}
    (h : createDataset P store schema capacity clock faults = (store', .ok d)) :
    Intact (System.created d) := by
  refine ⟨fun n hn => ?_, by rintro _ _ ⟨⟩⟩
  obtain ⟨version, m, hget, hmem⟩ := hn
  have hc := (createDataset_spec h).1
  obtain ⟨g, hg, _, hm⟩ := (System.recorded_created hc).listed version _ hget
  obtain rfl := List.mem_singleton.mp hg
  cases hm
  have hnone : Catalog.empty.StoredIn d.store := ⟨by simp [Catalog.empty], by simp [Catalog.empty]⟩
  obtain ⟨object, hobject⟩ := hc.valid.object_stored hnone hmem
  exact Option.isSome_iff_exists.mpr ⟨object, hobject⟩

open scoped Classical in
theorem intact_of_safe (h : ((system P).restrict SafeReclaim).Reachable s) : Intact s := by
  refine h.invariant (fun s hs => ?_) fun s label s' hreach hin hstep => ?_
  · obtain ⟨store, schema, capacity, clock, faults, store', d, hcreate, rfl⟩ := hs
    exact intact_created hcreate
  · obtain ⟨hsafe, hstep⟩ := TransitionSystem.restrict_step.mp hstep
    exact hin.step (System.inv_of_reachable hreach.of_restrict) hsafe hstep

open scoped Classical in
/-- In a run whose reclamations are safe, planning and pruning succeed in every
state and for every positive number of versions to keep. -/
theorem retention_succeeds (h : ((system P).restrict SafeReclaim).Reachable s)
    (hfit : SizesFit P s.dataset.store) {keep : ℕ} (hkeep : 1 ≤ keep) :
    (∃ plan, buildPlan P keep s.dataset.current s.held s.dataset.store = .ok plan) ∧
      ∃ report d, pruneManifests P keep s.held (fun _ => .none) s.dataset = (.ok report, d) := by
  have hi := System.inv_of_reachable h.of_restrict
  have hlive : ∀ v ∈ liveVersions s.dataset.current s.held, v ∈ s.dataset.store.versions := by
    intro v hv
    have hmem : ∃ b ∈ s.dataset.current :: s.held, b.version = v := by
      rcases System.mem_live.mp hv with rfl | ⟨b, hb, rfl⟩
      · exact ⟨_, List.mem_cons_self, rfl⟩
      · exact ⟨b, List.mem_cons_of_mem _ hb, rfl⟩
    obtain ⟨b, hb, rfl⟩ := hmem
    obtain ⟨g, hg, rfl, hlive⟩ := hi.live_mem hb
    rw [Store.mem_versions, (hi.kept g hg hlive).manifest]
    rfl
  have hobjects : ∀ n, Listed s.dataset.store n → n ∈ s.dataset.store.dataObjects := fun n hn =>
    Store.mem_dataObjects.mpr ((intact_of_safe h).objects n hn)
  have hpos : keep ≠ 0 := by omega
  exact ⟨hi.recorded.buildPlan_ok hpos hlive hobjects hfit,
    hi.recorded.prune_ok hpos hlive hobjects hfit⟩

/-- An insert and a compaction, up to its reclamation. -/
def compactLabels (before : List Label) : List Label :=
  insertLabels (idBatch [10, 20]) ++ before ++ [.compact (some 2) {}]

/-- The objects that manifests on storage list, in a form that can be evaluated. -/
def listedObjects (store : Store) : List ObjectName :=
  store.versions.flatMap fun version =>
    match store.get (.manifest version) with
    | some (.manifest m) => m.objectNames
    | _ => []

theorem mem_listedObjects (h : Listed store n) : n ∈ listedObjects store := by
  obtain ⟨version, m, hget, hn⟩ := h
  refine List.mem_flatMap.mpr ⟨version, Store.mem_versions.mpr (by rw [hget]; rfl), ?_⟩
  rw [hget]
  exact hn

open scoped Classical in
/-- While the version before a compaction is held, planning works after it. -/
theorem retention_succeeds_held :
    ∃ s s', plainRun idSchema (compactLabels [.acquire]) = some s ∧
      systemStep plainPlatform s .reclaim = some s' ∧
      (∃ plan, buildPlan plainPlatform 1 s'.dataset.current s'.held s'.dataset.store = .ok plan) ∧
      ∃ report d, pruneManifests plainPlatform 1 s'.held (fun _ => .none) s'.dataset =
        (.ok report, d) := by
  have hrun : ((plainRun idSchema (compactLabels [.acquire])).bind fun s =>
      (systemStep plainPlatform s .reclaim).map fun s' =>
        (decide (∀ n ∈ listedObjects s.dataset.store, ∃ b ∈ s.dataset.current :: s.held,
            n ∈ b.manifest.objectNames),
          s'.dataset.store.keys.length,
          (s'.dataset.store.keys.map (sizeOf plainPlatform s'.dataset.store)).sum)) =
      some (true, 7, 28) := by
    decide +kernel
  obtain ⟨s, hs, hmap⟩ := Option.bind_eq_some_iff.mp hrun
  obtain ⟨s', hs', hout⟩ := Option.map_eq_some_iff.mp hmap
  simp only [Prod.mk.injEq, decide_eq_true_eq] at hout
  obtain ⟨hlisted, hcount, hbytes⟩ := hout
  obtain ⟨s₀, hinit, hlabels⟩ := runOn_eq_some hs
  have hreach : ((system plainPlatform).restrict SafeReclaim).Reachable s := by
    refine TransitionSystem.Reachable.restrict_run (.init hinit) (fun label hl t => ?_) hlabels
    rintro rfl
    simp [compactLabels, insertLabels, commitLabels] at hl
  have hsafe : SafeReclaim s .reclaim := fun _ n hn => hlisted n (mem_listedObjects hn)
  have hreach' : ((system plainPlatform).restrict SafeReclaim).Reachable s' :=
    hreach.step (TransitionSystem.restrict_step.mpr ⟨hsafe, hs'⟩)
  have hfit : SizesFit plainPlatform s'.dataset.store :=
    ⟨by rw [hcount]; decide, by rw [hbytes]; decide⟩
  exact ⟨s, s', hs, hs', retention_succeeds hreach' hfit le_rfl⟩

/-- With no snapshot held the compaction's reclamation takes away the row file
that the manifest before it still lists, and planning fails from then on. -/
theorem retention_fails_after_reclaim :
    ∃ s, plainRun idSchema (compactLabels [] ++ [.reclaim, .deleteNext .none, .deleteNext .none]) =
        some s ∧ s.executor.isIdle = true ∧
      (∃ e, buildPlan plainPlatform 1 s.dataset.current s.held s.dataset.store = .error e) ∧
      ∃ e, (pruneManifests plainPlatform 1 s.held (fun _ => .none) s.dataset).1 = .error e := by
  have hrun : (plainRun idSchema
      (compactLabels [] ++ [.reclaim, .deleteNext .none, .deleteNext .none])).map (fun s =>
        (s.executor.isIdle,
          (buildPlan plainPlatform 1 s.dataset.current s.held s.dataset.store).isOk,
          (pruneManifests plainPlatform 1 s.held (fun _ => .none) s.dataset).1.isOk)) =
      some (true, false, false) := by
    decide +kernel
  obtain ⟨s, hs, hout⟩ := Option.map_eq_some_iff.mp hrun
  simp only [Prod.mk.injEq] at hout
  obtain ⟨hidle, hplan, hprune⟩ := hout
  exact ⟨s, hs, hidle, exists_error_of_isOk_eq_false hplan, exists_error_of_isOk_eq_false hprune⟩

end StrataDB.Txn
