import StrataDB.Txn.System
import StrataDB.Txn.Records

/-! What the lifecycle plans read and what they keep. -/

namespace StrataDB.Txn

open Lib Arrow Index Storage

variable {P : Platform} {store : Store}

/-! ### Reading listed manifests -/

variable {version size keep : ℕ} {m : Manifest} {names kept : List ObjectName} {logical : Schema}
  {versions live : List ℕ} {current : Snapshot} {held : List Snapshot} {plan : List Candidate}
  {key : Key} {d : Dataset} {candidates : List (Key × ℕ)}

theorem readListed_eq_ok :
    readListed P store version = .ok m ↔
      store.get (.manifest version) = some (.manifest m) ∧
        decodeManifest P.format version m = .ok m := by
  unfold readListed readManifest Store.manifestAt
  rw [lift_eq_ok, bind_eq_ok]
  constructor
  · rintro ⟨m', hm', hdec⟩
    rw [orElse_eq_ok] at hm'
    obtain rfl := (decodeManifest_eq_ok.mp hdec).1
    split at hm'
    · rename_i hget
      cases hm'
      exact ⟨hget, hdec⟩
    · cases hm'
  · rintro ⟨hget, hdec⟩
    exact ⟨m, by rw [hget]; rfl, hdec⟩

theorem Publication.KeptIn.readListed {h : Publication} (hk : h.KeptIn store) {cat : Catalog}
    (hv : h.snapshot.Valid P cat) :
    readListed P store h.snapshot.version = .ok h.snapshot.manifest :=
  readListed_eq_ok.mpr ⟨hk.manifest, hv.decodes⟩

theorem reachableKeys_eq_ok :
    reachableKeys m = .ok names ↔ m.objectNames.Nodup ∧ names = m.objectNames := by
  have hgo : ∀ (rest seen : List ObjectName), reachableKeys.go m seen rest = .ok () ↔
      rest.Nodup ∧ ∀ n ∈ rest, n ∉ seen := by
    intro rest
    induction rest with
    | nil => intro seen; simp [reachableKeys.go]
    | cons n rest ih =>
      intro seen
      rw [reachableKeys.go, bind_eq_ok]
      rw [List.forall_mem_cons, List.nodup_cons]
      simp only [ensure_eq_ok, exists_const, ih, List.mem_cons, not_or]
      constructor
      · rintro ⟨hn, hrest, hnot⟩
        exact ⟨⟨fun hmem => (hnot n hmem).1 rfl, hrest⟩, hn, fun k hk => (hnot k hk).2⟩
      · rintro ⟨⟨hmem, hrest⟩, hn, hnot⟩
        exact ⟨hn, hrest, fun k hk => ⟨fun heq => hmem (heq ▸ hk), hnot k hk⟩⟩
  unfold reachableKeys
  rw [bind_eq_ok]
  constructor
  · rintro ⟨_, hrun, hnames⟩
    exact ⟨((hgo _ _).mp hrun).1, (pure_eq_ok.mp hnames).symm⟩
  · rintro ⟨hnodup, rfl⟩
    exact ⟨(), (hgo _ _).mpr ⟨hnodup, by simp⟩, rfl⟩

/-! ### The inventory -/

theorem dataObjects_nodup (store : Store) : store.dataObjects.Nodup := by
  refine store.nodupKeys.filterMap ?_
  rintro (v | n | l) (v' | n' | l') b hb hb' <;> simp_all

theorem versions_nodup (store : Store) : store.versions.Nodup := by
  refine store.nodupKeys.filterMap ?_
  rintro (v | n | l) (v' | n' | l') b hb hb' <;> simp_all

theorem listedVersions_perm (store : Store) : (listedVersions store).Perm store.versions :=
  List.perm_insertionSort _ _

/-! ### What is kept -/

/-- Every protected version's objects are among those kept. -/
theorem protectVersions_keeps (h : protectVersions P store logical versions = .ok kept)
    (hmem : version ∈ versions) (hread : readListed P store version = .ok m) :
    ∀ n ∈ m.objectNames, n ∈ kept := by
  simp only [protectVersions, bind_eq_ok, pure_eq_ok] at h
  obtain ⟨keys, hkeys, rfl⟩ := h
  obtain ⟨names, hnames, hprotect⟩ := exists_right_of_forall₂ (mapM_eq_ok.mp hkeys) hmem
  simp only [protectVersion, bind_eq_ok, pure_eq_ok, hread, Except.ok.injEq] at hprotect
  obtain ⟨_, _, m', rfl, _, _, rfl⟩ := hprotect
  exact fun n hn => List.mem_flatten_of_mem hnames hn

theorem vacuumPlan_keeps (h : vacuumPlan P current held store = .ok plan)
    (hc : .ok (key, size) ∈ plan) :
    ∃ n, key = .data n ∧ ∀ version ∈ liveVersions current held, ∀ m,
      readListed P store version = .ok m → n ∉ m.objectNames := by
  simp only [vacuumPlan, bind_eq_ok, pure_eq_ok] at h
  obtain ⟨kept, hkept, listed, _, rfl⟩ := h
  obtain ⟨n, hn, heq⟩ := List.mem_map.mp hc
  cases heq
  refine ⟨n, rfl, fun version hv m hm hmem => ?_⟩
  have := (List.mem_filter.mp hn).2
  simp only [List.mem_append, not_or, decide_eq_true_eq] at this
  exact this.1 (protectVersions_keeps hkept hv hm n hmem)

theorem reclaimPlan_keeps (h : reclaimPlan P logical live store = .ok plan)
    (hc : .ok (key, size) ∈ plan) :
    ∃ n, key = .data n ∧ ∀ version ∈ live, ∀ m,
      readListed P store version = .ok m → n ∉ m.objectNames := by
  simp only [reclaimPlan, bind_eq_ok, pure_eq_ok] at h
  obtain ⟨kept, hkept, listed, _, rfl⟩ := h
  obtain ⟨n, _, heq⟩ := List.mem_filterMap.mp hc
  unfold reclaimCandidate at heq
  split at heq
  · split at heq
    · cases heq
    · rename_i hnot
      cases heq
      exact ⟨n, rfl, fun version hv m hm hmem =>
        hnot (protectVersions_keeps hkept hv hm n hmem)⟩
  · split at heq <;> cases heq

/-- The versions a plan lets go are listed, each once, and none of them is live. -/
theorem buildPlan_eligible {plan : RetentionPlan}
    (h : buildPlan P keep current held store = .ok plan) :
    plan.eligibleManifestVersions.Nodup ∧ ∀ v ∈ plan.eligibleManifestVersions,
      v ∈ store.versions ∧ v ∉ liveVersions current held := by
  simp only [buildPlan, bind_eq_ok, pure_eq_ok] at h
  obtain ⟨_, _, keys, _, older, _, ⟨count, bytes, objects⟩, _, _, _, rfl⟩ := h
  refine ⟨((listedVersions_perm store).nodup_iff.mpr (versions_nodup _)).filter _, fun v hv => ?_⟩
  obtain ⟨hlisted, hcond⟩ := List.mem_filter.mp hv
  simp only [decide_eq_true_eq] at hcond
  refine ⟨(listedVersions_perm store).mem_iff.mp hlisted, fun hlive => hcond.2 ?_⟩
  simp [hlive]

/-- A prune only deletes manifests of versions that are not live. -/
theorem buildManifestPruneAuthority_keeps
    (h : buildManifestPruneAuthority P keep current held store = .ok versions)
    (hv : version ∈ versions) : version ∉ liveVersions current held := by
  simp only [buildManifestPruneAuthority, bind_eq_ok, pure_eq_ok] at h
  obtain ⟨plan, hplan, _, _, rfl⟩ := h
  exact ((buildPlan_eligible hplan).2 version hv).2

theorem buildAgeManifestPruneAuthority_keeps {maxAgeUs : ℕ} {clock : Option ℕ}
    (h : buildAgeManifestPruneAuthority P keep maxAgeUs clock current held store = .ok versions)
    (hv : version ∈ versions) : version ∉ liveVersions current held := by
  simp only [buildAgeManifestPruneAuthority, bind_eq_ok, pure_eq_ok] at h
  obtain ⟨_, _, now, _, old, hold, rfl⟩ := h
  rw [List.reduceOption_mem_iff] at hv
  obtain ⟨candidate, hmem, hcand⟩ := exists_left_of_forall₂ (mapM_eq_ok.mp hold) hv
  simp only [bind_eq_ok, pure_eq_ok] at hcand
  obtain ⟨_, _, isOld, _, heq⟩ := hcand
  split at heq
  · cases heq
    have := (List.mem_filter.mp hmem).2
    simp only [decide_eq_true_eq, List.mem_append, not_or] at this
    exact this.2.1
  · cases heq

theorem prunePlan_keeps {versions : Except TxnError (List ℕ)}
    (hversions : ∀ vs, versions = .ok vs → ∀ version ∈ vs, version ∉ live)
    (h : prunePlan P store versions = .ok plan) (hc : .ok (key, size) ∈ plan) :
    ∃ version, key = .manifest version ∧ version ∉ live := by
  simp only [prunePlan, bind_eq_ok, pure_eq_ok] at h
  obtain ⟨vs, hvs, _, _, rfl⟩ := h
  obtain ⟨version, hv, heq⟩ := List.mem_map.mp hc
  cases heq
  exact ⟨version, rfl, hversions vs hvs version hv⟩

/-! ### Sizes -/

/-- All objects together are within the range of the counters. -/
structure SizesFit (P : Platform) (store : Store) : Prop where
  count : store.keys.length < u64Bound
  bytes : (store.keys.map (sizeOf P store)).sum < u64Bound

namespace SizesFit

theorem data_bytes (h : SizesFit P store) :
    (store.dataObjects.map fun n => sizeOf P store (.data n)).sum < u64Bound := by
  refine (sum_filterMap_le ?_ store.keys).trans_lt h.bytes
  rintro (v | n | l) b hb <;> simp_all

theorem data_count (h : SizesFit P store) : store.dataObjects.length < u64Bound :=
  (List.length_filterMap_le _ _).trans_lt h.count

theorem manifest_bytes (h : SizesFit P store) :
    (store.versions.map fun v => sizeOf P store (.manifest v)).sum < u64Bound := by
  refine (sum_filterMap_le ?_ store.keys).trans_lt h.bytes
  rintro (v | n | l) b hb <;> simp_all

end SizesFit

theorem totalManifestBytes_ok (total : ℕ)
    (h : total + (versions.map fun v => sizeOf P store (.manifest v)).sum < u64Bound) :
    ∃ bytes, totalManifestBytes P store total versions = .ok bytes := by
  induction versions generalizing total with
  | nil => exact ⟨total, rfl⟩
  | cons version versions ih =>
    rw [List.map_cons, List.sum_cons] at h
    obtain ⟨bytes, hbytes⟩ := ih (total + sizeOf P store (.manifest version)) (by omega)
    refine ⟨bytes, ?_⟩
    rw [totalManifestBytes, bind_eq_ok]
    exact ⟨_, checkedAdd_eq_ok.mpr ⟨rfl, by omega⟩, hbytes⟩

theorem classifyDataObjects_ok (retained older : List ObjectName) (count bytes : ℕ)
    (hcount : count + names.length < u64Bound)
    (hbytes : bytes + (names.map fun n => sizeOf P store (.data n)).sum < u64Bound) :
    ∃ r, classifyDataObjects P store retained older count bytes names = .ok r := by
  induction names generalizing count bytes with
  | nil => exact ⟨_, rfl⟩
  | cons n names ih =>
    rw [List.map_cons, List.sum_cons] at hbytes
    rw [List.length_cons] at hcount
    unfold classifyDataObjects
    dsimp only
    split
    · obtain ⟨r, hr⟩ := ih (count + 1) (bytes + sizeOf P store (.data n)) (by omega) (by omega)
      refine ⟨r, ?_⟩
      rw [bind_eq_ok]
      refine ⟨_, checkedAdd_eq_ok.mpr ⟨rfl, by omega⟩, ?_⟩
      rw [bind_eq_ok]
      exact ⟨_, checkedAdd_eq_ok.mpr ⟨rfl, by omega⟩, hr⟩
    · obtain ⟨r, hr⟩ := ih count bytes (by omega) (by omega)
      rw [hr]
      exact ⟨_, rfl⟩

/-! ### Deletions -/

theorem deleteObject_present (h : (d.store.get key).isSome = true) :
    deleteObject key .none d = (.ok (), { d with store := d.store.erase key }) := by
  have hnone : (d.store.get key).isNone = false := by
    rw [Option.isNone_eq_false_iff]
    exact h
  simp [deleteObject, Store.delete, hnone]

theorem isSome_erase {store : Store} {key' : Key} (hne : key' ≠ key)
    (h : (store.get key').isSome = true) : (Store.get (store.erase key) key').isSome = true := by
  rwa [Store.get_erase, if_neg hne]

theorem deleteManifests_ok (hn : versions.Nodup) (d : Dataset)
    (hp : ∀ v ∈ versions, (d.store.get (.manifest v)).isSome = true) (i : ℕ) :
    ∃ r d', Effect.forEach (fun p : ℕ × ℕ => deleteObject (.manifest p.1) .none)
      (versions.zipIdx i) d = (.ok r, d') := by
  induction versions generalizing d i with
  | nil => exact ⟨[], d, rfl⟩
  | cons version versions ih =>
    rw [List.nodup_cons] at hn
    rw [List.forall_mem_cons] at hp
    have hrest : ∀ v ∈ versions, (Store.get (d.store.erase (.manifest version))
        (.manifest v)).isSome = true := fun v hv =>
      isSome_erase (fun heq => hn.1 (Key.manifest.inj heq ▸ hv)) (hp.2 v hv)
    obtain ⟨r, d', hr⟩ :=
      ih hn.2 { d with store := d.store.erase (.manifest version) } hrest (i + 1)
    refine ⟨() :: r, d', ?_⟩
    rw [List.zipIdx_cons, Effect.forEach, Effect.bind_of_ok (deleteObject_present hp.1),
      Effect.bind_of_ok hr]
    rfl

/-- Candidates that are on storage can be deleted one after the other. -/
theorem deleteCandidates_ok (hn : (candidates.map Prod.fst).Nodup) (d : Dataset)
    (hp : ∀ c ∈ candidates, (d.store.get c.1).isSome = true) (i objects bytes : ℕ)
    (hobjects : objects + candidates.length < u64Bound)
    (hbytes : bytes + (candidates.map Prod.snd).sum < u64Bound) :
    ∃ r d', deleteCandidates (fun _ => .none) i objects bytes (candidates.map .ok) d =
      (.ok r, d') := by
  induction candidates generalizing d i objects bytes with
  | nil => exact ⟨_, d, rfl⟩
  | cons c candidates ih =>
    obtain ⟨key, size⟩ := c
    rw [List.map_cons, List.nodup_cons] at hn
    rw [List.forall_mem_cons] at hp
    rw [List.map_cons, List.sum_cons] at hbytes
    rw [List.length_cons] at hobjects
    dsimp only at hn hp hbytes
    have hrest : ∀ c ∈ candidates, (Store.get (d.store.erase key) c.1).isSome = true :=
      fun c hc => isSome_erase (fun heq => hn.1 (heq ▸ List.mem_map_of_mem hc)) (hp.2 c hc)
    obtain ⟨r, d', hr⟩ := ih hn.2 { d with store := d.store.erase key } hrest (i + 1) (objects + 1)
      (bytes + size) (by omega) (by omega)
    refine ⟨r, d', ?_⟩
    have hobj : checkedAdd objects 1 "objects_deleted" = .ok (objects + 1) :=
      checkedAdd_eq_ok.mpr ⟨rfl, by omega⟩
    have hbyt : checkedAdd bytes size "bytes_deleted" = .ok (bytes + size) :=
      checkedAdd_eq_ok.mpr ⟨rfl, by omega⟩
    rw [List.map_cons, deleteCandidates, Effect.bind_of_ok (Effect.lift_apply _ d)]
    dsimp only
    rw [Effect.bind_of_ok (deleteObject_present hp.1), hobj, hbyt]
    exact hr

/-- What a finished deletion loop has counted did not overflow. -/
theorem deleteCandidates_fits {faults : ℕ → Fault} {i objects bytes : ℕ} {d' : Dataset} {r : ℕ × ℕ}
    (h : deleteCandidates faults i objects bytes (candidates.map .ok) d = (.ok r, d'))
    (hobjects : objects < u64Bound) (hbytes : bytes < u64Bound) :
    objects + candidates.length < u64Bound ∧
      bytes + (candidates.map Prod.snd).sum < u64Bound := by
  induction candidates generalizing d i objects bytes with
  | nil => exact ⟨hobjects, hbytes⟩
  | cons c candidates ih =>
    obtain ⟨key, size⟩ := c
    rw [List.map_cons, deleteCandidates, Effect.bind_of_ok (Effect.lift_apply _ d),
      Effect.bind_eq_ok] at h
    obtain ⟨_, d₁, _, h⟩ := h
    obtain ⟨objects', _, hobj, h⟩ := Effect.bind_eq_ok.mp h
    obtain ⟨bytes', _, hbyt, h⟩ := Effect.bind_eq_ok.mp h
    rw [Effect.lift_apply, Prod.mk.injEq, checkedAdd_eq_ok] at hobj hbyt
    obtain ⟨⟨rfl, hobj⟩, rfl⟩ := hobj
    obtain ⟨⟨rfl, hbyt⟩, rfl⟩ := hbyt
    obtain ⟨hcount, hsum⟩ := ih h hobj hbyt
    rw [List.map_cons, List.sum_cons, List.length_cons]
    dsimp only
    omega

/-- The objects that a reclamation deletes, once all protected ones are present. -/
theorem filterMap_reclaimCandidate {listed : List ObjectName}
    (hkept : ∀ n ∈ kept, n ∈ store.dataObjects) :
    listed.filterMap (reclaimCandidate P store kept) =
      ((listed.filter fun n => n ∈ store.dataObjects ∧ n ∉ kept).map
        fun n => (Key.data n, sizeOf P store (.data n))).map .ok := by
  induction listed with
  | nil => rfl
  | cons n listed ih =>
    by_cases hpresent : n ∈ store.dataObjects <;> by_cases hmem : n ∈ kept
    · simp [reclaimCandidate, hpresent, hmem, ih]
    · simp [reclaimCandidate, hpresent, hmem, ih]
    · exact absurd (hkept n hmem) hpresent
    · simp [reclaimCandidate, hpresent, hmem, ih]

/-- The names among `names`, with their sizes, as deletions. -/
theorem deleteData_ok (hn : names.Nodup) (hp : ∀ n ∈ names, n ∈ d.store.dataObjects)
    (hcount : names.length < u64Bound)
    (hbytes : (names.map fun n => sizeOf P d.store (.data n)).sum < u64Bound) :
    ∃ r d', deleteCandidates (fun _ => .none) 0 0 0
      ((names.map fun n => (Key.data n, sizeOf P d.store (.data n))).map .ok) d = (.ok r, d') := by
  refine deleteCandidates_ok ?_ d (fun c hc => ?_) 0 0 0 ?_ ?_
  · rw [List.map_map]
    exact hn.map fun a b hab => by simpa using hab
  · obtain ⟨n, hmem, rfl⟩ := List.mem_map.mp hc
    exact Store.mem_dataObjects.mp (hp n hmem)
  · simpa using hcount
  · rw [List.map_map, Nat.zero_add]
    exact hbytes

end StrataDB.Txn
