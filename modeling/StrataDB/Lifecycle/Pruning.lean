import Mathlib.Data.Finset.Sort
import Mathlib.Data.List.ReduceOption
import StrataDB.Lifecycle.Listed

/-! Which manifests a prune deletes. A policy says which versions may go; the planner finds
exactly those, in their order, before anything is deleted. Whatever happens then, what is
gone is an initial segment of them. -/

namespace StrataDB.Lifecycle

open Lib Storage

variable {β : Type} {M : Medium β} {disk disk' : Disk β}

/-! ### The policy -/

namespace Disk

/-- The versions with a manifest on the disk. -/
def versions (disk : Disk β) : Finset ℕ :=
  (disk.objects.filterMap fun o => listedManifestVersion o.1).toFinset

/-- The versions a policy lets go: those below the current one that no snapshot holds and
after which there are enough newer ones. -/
def eligible (disk : Disk β) (keep current : ℕ) (held : List ℕ) : Finset ℕ :=
  disk.versions.filter fun v =>
    v < current ∧ v ∉ held ∧ keep ≤ (disk.versions.filter fun w => v < w).card

/-- A version's manifest says when it was published, and that is long enough ago. -/
def OldEnough (disk : Disk β) (M : Medium β) (clock : Option ℕ) (maxAgeUs v : ℕ) : Prop :=
  ∃ catalog, disk.Manifest M v catalog ∧ catalog.committedAtUs ≠ 0 ∧
    ∃ now ∈ clock, (maxAgeUs : ℤ) ≤ now - catalog.committedAtUs

open Classical in
/-- The versions an age policy lets go. -/
noncomputable def eligibleByAge (disk : Disk β) (M : Medium β) (keep maxAgeUs : ℕ)
    (clock : Option ℕ) (current : ℕ) (held : List ℕ) : Finset ℕ :=
  (disk.eligible keep current held).filter (disk.OldEnough M clock maxAgeUs)

/-- The disk without the manifests of some versions. -/
def withoutVersions (disk : Disk β) (gone : List ℕ) : Disk β where
  objects := disk.objects.filter fun o => ∀ v ∈ gone, listedManifestVersion o.1 ≠ some v
  nodup := disk.nodup.sublist (List.filter_sublist.map Prod.fst)

/-- The size of the manifests of some versions. -/
def manifestBytes (disk : Disk β) (M : Medium β) (versions : List ℕ) : ℕ :=
  ((disk.objects.filter fun o => ∃ v ∈ versions, listedManifestVersion o.1 = some v).map
    fun o => M.size o.2).sum

@[simp] theorem withoutVersions_nil : disk.withoutVersions [] = disk := by
  ext1
  simp [withoutVersions]

variable {v : ℕ}

theorem mem_versions :
    v ∈ disk.versions ↔ ∃ o ∈ disk.objects, listedManifestVersion o.1 = some v := by
  simp only [versions, List.mem_toFinset, List.mem_filterMap]

theorem mem_eligibleByAge {keep maxAgeUs current : ℕ} {clock : Option ℕ} {held : List ℕ} :
    v ∈ disk.eligibleByAge M keep maxAgeUs clock current held ↔
      v ∈ disk.eligible keep current held ∧ disk.OldEnough M clock maxAgeUs v := by
  simp only [eligibleByAge, Finset.mem_filter]

end Disk

/-- The ways a prune of the eligible versions can end. -/
structure PruneOutcome (M : Medium β) (disk disk' : Disk β) (current : ℕ) (eligible : Finset ℕ)
    (plan : Except LifecycleError (List (ℕ × ListedManifest)))
    (result : Except LifecycleError ManifestPruneReport) : Prop where
  /-- What is gone is an initial segment of the eligible versions. -/
  initial : ∃ gone, gone <+: eligible.sort (· ≤ ·) ∧ disk' = disk.withoutVersions gone
  complete : ∀ report, result = .ok report →
    disk' = disk.withoutVersions (eligible.sort (· ≤ ·)) ∧
      report = ⟨current, eligible.sort (· ≤ ·), disk.manifestBytes M (eligible.sort (· ≤ ·))⟩
  unplanned : ∀ e, plan = .error e → result = .error e ∧ disk' = disk
  overflow : 2 ^ 64 ≤ disk.manifestBytes M (eligible.sort (· ≤ ·)) → disk' = disk

/-! ### Versions in their order -/

theorem sort_eq_of_ascending {versions : Finset ℕ} {listed : List ℕ} (h : listed.Pairwise (· < ·))
    (hmem : ∀ v, v ∈ versions ↔ v ∈ listed) : versions.sort (· ≤ ·) = listed := by
  obtain rfl : versions = listed.toFinset := by
    ext v
    rw [hmem, List.mem_toFinset]
  exact (List.toFinset_sort (· ≤ ·) (h.imp fun hlt => hlt.ne)).mpr (h.imp fun hlt => hlt.le)

theorem Disk.mem_eligible_of_ascending {listed : List ℕ} (h : listed.Pairwise (· < ·))
    (hlisted : listed.toFinset = disk.versions) {keep current : ℕ} {held : List ℕ} {v : ℕ} :
    v ∈ disk.eligible keep current held ↔ v ∈ listed ∧ v < current ∧
      v ∉ latestVersions listed keep ∧ v ∉ liveSnapshotVersions current held := by
  have hnodup : listed.Nodup := h.imp fun hlt => hlt.ne
  have hnewer : (disk.versions.filter fun w => v < w).card =
      (listed.filter fun w => v < w).length := by
    rw [← List.toFinset_card_of_nodup (hnodup.filter _), List.toFinset_filter, hlisted]
    simp only [decide_eq_true_eq]
  rw [Disk.eligible, Finset.mem_filter, hnewer, ← hlisted, List.mem_toFinset]
  refine and_congr_right fun hv => and_congr_right fun hlt => ?_
  rw [latestVersions, notMem_drop_length_sub_iff h hv, and_comm]
  refine and_congr_right fun _ => not_congr ?_
  rw [liveSnapshotVersions, List.mem_insertionSort, List.mem_dedup, List.mem_cons]
  exact ⟨.inr, fun hmem => hmem.resolve_left hlt.ne⟩

/-! ### The index -/

namespace Indexed

variable {listed candidates : List (ℕ × ListedManifest)}

theorem toFinset_versions (h : Indexed M disk listed) :
    (listed.map Prod.fst).toFinset = disk.versions := by
  ext v
  rw [Disk.mem_versions, List.mem_toFinset, List.mem_map]
  constructor
  · rintro ⟨⟨_, m⟩, hm, rfl⟩
    obtain ⟨o, ho, hv, -⟩ := (h.mem_iff _ m).mp hm
    exact ⟨o, ho, hv⟩
  · rintro ⟨o, ho, hv⟩
    exact ⟨_, (h.mem_iff v _).mpr ⟨o, ho, hv, rfl⟩, rfl⟩

/-- The versions that are neither kept nor held are the eligible ones. -/
theorem mem_eligible (h : Indexed M disk listed) {keep current : ℕ} {held : List ℕ} {v : ℕ} :
    v ∈ disk.eligible keep current held ↔ v ∈ listed.map Prod.fst ∧ v < current ∧
      v ∉ latestVersions (listed.map Prod.fst) keep ∧ v ∉ liveSnapshotVersions current held :=
  Disk.mem_eligible_of_ascending (List.pairwise_map.mpr h.ascending) h.toFinset_versions

theorem sort_eq (h : Indexed M disk listed) (hsub : candidates.Sublist listed) {eligible : Finset ℕ}
    (heligible : ∀ v, v ∈ eligible ↔ v ∈ candidates.map Prod.fst) :
    eligible.sort (· ≤ ·) = candidates.map Prod.fst :=
  sort_eq_of_ascending (List.pairwise_map.mpr (h.ascending.sublist hsub)) heligible

theorem mem_keys_iff (h : Indexed M disk listed) (hsub : candidates.Sublist listed) {o : Text × β}
    (ho : o ∈ disk.objects) :
    o.1 ∈ candidates.map (fun c => c.2.key) ↔
      ∃ v ∈ candidates.map Prod.fst, listedManifestVersion o.1 = some v := by
  simp only [List.mem_map]
  constructor
  · rintro ⟨⟨v, m⟩, hm, hkey⟩
    obtain ⟨o', ho', hv, rfl⟩ := (h.mem_iff v m).mp (hsub.subset hm)
    obtain rfl := Disk.eq_of_key_eq ho ho' hkey.symm
    exact ⟨v, ⟨_, hm, rfl⟩, hv⟩
  · rintro ⟨_, ⟨⟨v, m⟩, hm, rfl⟩, hv⟩
    obtain ⟨o', ho', hv', rfl⟩ := (h.mem_iff v m).mp (hsub.subset hm)
    obtain rfl := h.object_unique ho ho' hv hv'
    exact ⟨_, hm, rfl⟩

/-- Deleting the objects of candidates deletes the manifests of their versions. -/
theorem without_eq (h : Indexed M disk listed) (hsub : candidates.Sublist listed) :
    disk.without (candidates.map fun c => c.2.key) =
      disk.withoutVersions (candidates.map Prod.fst) := by
  ext1
  refine List.filter_congr fun o ho => ?_
  rw [decide_eq_decide, h.mem_keys_iff hsub ho]
  simp only [not_exists, not_and, ne_eq]

theorem manifestBytes_eq (h : Indexed M disk listed) (hsub : candidates.Sublist listed) :
    disk.manifestBytes M (candidates.map Prod.fst) =
      (candidates.map fun c => c.2.bytes).sum := by
  have hkeys : (candidates.map fun c => c.2.key).Nodup := by
    have hnodup : candidates.Pairwise fun a b => a.2.key ≠ b.2.key := by
      refine (h.ascending.sublist hsub).imp_of_mem fun {a b} ha hb hlt heq => hlt.ne ?_
      obtain ⟨o, ho, hv, hm⟩ := (h.mem_iff a.1 a.2).mp (hsub.subset ha)
      obtain ⟨o', ho', hv', hm'⟩ := (h.mem_iff b.1 b.2).mp (hsub.subset hb)
      rw [hm, hm'] at heq
      obtain rfl := Disk.eq_of_key_eq ho ho' heq
      rw [hv] at hv'
      exact Option.some.inj hv'
    exact List.pairwise_map.mpr hnodup
  have hmetas : (candidates.map Prod.snd).Nodup := by
    refine List.Nodup.of_map ListedManifest.key ?_
    rwa [List.map_map]
  let gone := disk.objects.filter fun o =>
    ∃ v ∈ candidates.map Prod.fst, listedManifestVersion o.1 = some v
  let entry := fun o : Text × β => (⟨o.1, M.size o.2⟩ : ListedManifest)
  have hgone : (gone.map entry).Nodup := by
    refine List.Nodup.of_map ListedManifest.key ?_
    rw [List.map_map]
    exact disk.nodup.sublist (List.filter_sublist.map Prod.fst)
  have hperm : (gone.map entry).Perm (candidates.map Prod.snd) := by
    refine (List.perm_ext_iff_of_nodup hgone hmetas).mpr fun m => ?_
    simp only [gone, List.mem_map, List.mem_filter, decide_eq_true_eq]
    constructor
    · rintro ⟨o, ⟨ho, v, ⟨⟨_, m⟩, hm, rfl⟩, hv⟩, rfl⟩
      obtain ⟨o', ho', hv', rfl⟩ := (h.mem_iff _ m).mp (hsub.subset hm)
      obtain rfl := h.object_unique ho ho' hv hv'
      exact ⟨_, hm, rfl⟩
    · rintro ⟨⟨v, _⟩, hm, rfl⟩
      obtain ⟨o, ho, hv, rfl⟩ := (h.mem_iff v _).mp (hsub.subset hm)
      exact ⟨o, ⟨ho, v, ⟨_, hm, rfl⟩, hv⟩, rfl⟩
  have hsum := (hperm.map ListedManifest.bytes).sum_eq
  rwa [List.map_map, List.map_map] at hsum

end Indexed

/-! ### The executor -/

variable {candidates : List (ℕ × ListedManifest)} {faults : ℕ → Fault} {current keep maxAgeUs : ℕ}
  {listing : ℕ → Option LifecycleError} {held : List ℕ}

theorem totalManifestBytes_eq_ok {total bytes : ℕ} (htotal : total < 2 ^ 64) :
    totalManifestBytes total candidates = .ok bytes ↔
      total + (candidates.map fun c => c.2.bytes).sum < 2 ^ 64 ∧
        bytes = total + (candidates.map fun c => c.2.bytes).sum := by
  induction candidates generalizing total with
  | nil =>
    simp only [totalManifestBytes, Except.ok.injEq, List.map_nil, List.sum_nil, Nat.add_zero]
    exact ⟨fun h => ⟨htotal, h.symm⟩, fun h => h.2.symm⟩
  | cons c rest ih =>
    simp only [totalManifestBytes, bind_eq_ok, checkedAdd_eq_ok, List.map_cons, List.sum_cons]
    rw [← Nat.add_assoc]
    constructor
    · rintro ⟨_, ⟨hlt, rfl⟩, h⟩
      exact (ih hlt).mp h
    · intro h
      have hlt : total + c.2.bytes < 2 ^ 64 := by omega
      exact ⟨_, ⟨hlt, rfl⟩, (ih hlt).mpr h⟩

/-- However the loop ends, the objects of the first candidates are gone. -/
theorem deleteManifests_cases {i : ℕ} {r : Except LifecycleError (List ℕ)}
    (h : deleteManifests faults i candidates disk = (r, disk')) :
    ∃ gone, gone <+: candidates ∧ disk' = disk.without (gone.map fun c => c.2.key) ∧
      ∀ versions, r = .ok versions → gone = candidates ∧ versions = candidates.map Prod.fst := by
  induction candidates generalizing i disk disk' r with
  | nil =>
    cases h
    exact ⟨[], List.nil_prefix, by simp, by simp⟩
  | cons c rest ih =>
    have hfirst : [c] <+: c :: rest := ⟨rest, rfl⟩
    rcases Effect.bind_cases h with ⟨_, disk₁, hdelete, h⟩ | ⟨e, hdelete, rfl⟩
    · -- the first object is deleted and the loop goes on without it
      obtain ⟨-, rfl⟩ | ⟨e, he, -⟩ := deleteKey_cases hdelete
      · rcases Effect.bind_cases h with ⟨versions, disk₂, hrest, h⟩ | ⟨e, hrest, rfl⟩
        · obtain ⟨gone, hgone, hdisk, hall⟩ := ih hrest
          cases h
          obtain ⟨rfl, rfl⟩ := hall versions rfl
          refine ⟨c :: gone, List.prefix_rfl, ?_, ?_⟩
          · simpa using hdisk
          · simp
        · obtain ⟨gone, hgone, hdisk, -⟩ := ih hrest
          refine ⟨c :: gone, (List.prefix_cons_inj c).mpr hgone, ?_, by simp⟩
          simpa using hdisk
      · cases he
    · obtain ⟨he, -⟩ | ⟨_, -, rfl | rfl⟩ := deleteKey_cases hdelete
      · cases he
      · exact ⟨[], List.nil_prefix, by simp, by simp⟩
      · exact ⟨[c], hfirst, by simp, by simp⟩

theorem PruneOutcome.of_plan {plan : Except LifecycleError (List (ℕ × ListedManifest))}
    {eligible : Finset ℕ} {result : Except LifecycleError ManifestPruneReport}
    (hplan : ∀ candidates, plan = .ok candidates → ∃ listed, Indexed M disk listed ∧
      candidates.Sublist listed ∧ ∀ v, v ∈ eligible ↔ v ∈ candidates.map Prod.fst)
    (hrun : (Effect.lift plan >>= deleteAuthorizedManifests current faults) disk =
      (result, disk')) :
    PruneOutcome M disk disk' current eligible plan result := by
  rcases Effect.lift_bind_cases hrun with ⟨candidates, rfl, hexec⟩ | ⟨e, rfl, rfl, rfl⟩
  · obtain ⟨listed, hindexed, hsub, heligible⟩ := hplan candidates rfl
    have hsort := hindexed.sort_eq hsub heligible
    have hbytes := hindexed.manifestBytes_eq hsub
    rcases Effect.lift_bind_cases hexec with ⟨bytes, hok, hdelete⟩ | ⟨e, herror, rfl, rfl⟩
    · obtain ⟨hlt, rfl⟩ := (totalManifestBytes_eq_ok (by decide)).mp hok
      rw [Nat.zero_add, ← hbytes, ← hsort] at hlt
      have hfits : 2 ^ 64 ≤ disk.manifestBytes M (eligible.sort (· ≤ ·)) → disk' = disk :=
        fun hle => absurd hle hlt.not_ge
      rcases Effect.bind_cases hdelete with ⟨versions, disk₁, hloop, hreport⟩ | ⟨e, hloop, rfl⟩
      · obtain ⟨gone, -, rfl, hall⟩ := deleteManifests_cases hloop
        cases hreport
        obtain ⟨rfl, rfl⟩ := hall versions rfl
        rw [hindexed.without_eq hsub] at hfits ⊢
        refine ⟨⟨_, List.prefix_rfl, by rw [hsort]⟩, ?_, by simp, hfits⟩
        rintro report ⟨⟩
        rw [hsort, hbytes, Nat.zero_add]
        exact ⟨rfl, rfl⟩
      · obtain ⟨gone, hgone, rfl, -⟩ := deleteManifests_cases hloop
        refine ⟨⟨gone.map Prod.fst, ?_, ?_⟩, by simp, by simp, hfits⟩
        · rw [hsort]
          exact hgone.map Prod.fst
        · exact hindexed.without_eq (hgone.sublist.trans hsub)
    · exact ⟨⟨[], List.nil_prefix, by simp⟩, by simp, by simp, fun _ => rfl⟩
  · refine ⟨⟨[], List.nil_prefix, by simp⟩, by simp, ?_, fun _ => rfl⟩
    rintro e ⟨⟩
    exact ⟨rfl, rfl⟩

/-! ### The plans -/

/-- The plan of a count-based prune is the eligible part of the index. -/
theorem buildManifestPruneAuthority_spec
    (h : buildManifestPruneAuthority M disk listing keep current held = .ok candidates) :
    ∃ listed, Indexed M disk listed ∧ candidates.Sublist listed ∧
      ∀ v, v ∈ disk.eligible keep current held ↔ v ∈ candidates.map Prod.fst := by
  simp only [buildManifestPruneAuthority, buildPlan, bind_eq_ok, pure_eq_ok] at h
  obtain ⟨plan, ⟨-, -, objects, hlist, _, -, listed, hindex, _, -, _, -, _, -, -, -, rfl⟩,
    objects', hlist', listed', hindex', hmap⟩ := h
  have hindexed := Indexed.of_ok hlist hindex
  obtain rfl : objects' = objects := by
    rw [(listObjects_eq_ok.mp hlist).2, (listObjects_eq_ok.mp hlist').2]
  obtain rfl : listed' = listed := by
    rw [hindex] at hindex'
    exact (Except.ok.inj hindex').symm
  let older := listed'.filter fun v => v.1 < current ∧ v.1 ∉
    (latestVersions (listed'.map Prod.fst) keep ++
      liveSnapshotVersions current held).dedup.insertionSort (· ≤ ·)
  have hsub : older.Sublist listed' := List.filter_sublist
  -- looking a version up again finds its entry
  have hcandidates : (older.map Prod.fst).mapM (fun version => do
      let key ← manifestOf listed' version "eligible manifest is missing from inventory"
      return (version, key)) = .ok older := by
    rw [mapM_eq_ok, List.forall₂_map_left_iff, List.forall₂_same]
    intro e he
    simp only [manifestOf, bind_eq_ok, orElse_eq_ok, pure_eq_ok]
    exact ⟨e.2, hindexed.lookup_iff.mpr (hsub.subset he), rfl⟩
  obtain rfl : older = candidates := Except.ok.inj (hcandidates.symm.trans hmap)
  refine ⟨listed', hindexed, hsub, fun v => ?_⟩
  rw [hindexed.mem_eligible]
  simp only [older, List.mem_map, List.mem_filter, decide_eq_true_eq, List.mem_insertionSort,
    List.mem_dedup, List.mem_append, not_or]
  constructor
  · rintro ⟨⟨e, he, rfl⟩, hkept⟩
    exact ⟨e, ⟨he, hkept⟩, rfl⟩
  · rintro ⟨e, ⟨he, hkept⟩, rfl⟩
    exact ⟨⟨e, he, rfl⟩, hkept⟩

/-- The age test compares with the exact difference. -/
theorem manifestIsOldEnough_eq_ok {committedAtUs now : ℤ} {isOld : Bool}
    (h : manifestIsOldEnough committedAtUs now maxAgeUs = .ok isOld) :
    isOld = true ↔ committedAtUs ≠ 0 ∧ (maxAgeUs : ℤ) ≤ now - committedAtUs := by
  unfold manifestIsOldEnough at h
  split_ifs at h with hzero
  · cases h
    simp [hzero]
  · simp only [bind_eq_ok, ensure_eq_ok, pure_eq_ok] at h
    obtain ⟨-, hlt, rfl⟩ := h
    have hlt : (maxAgeUs : ℤ) < 2 ^ 63 := by exact_mod_cast hlt
    rw [decide_eq_true_eq, saturatingSub, le_max_iff, le_min_iff]
    constructor
    · intro hle
      refine ⟨hzero, ?_⟩
      omega
    · rintro ⟨-, hle⟩
      omega

theorem reduceOption_sublist {α : Type*} {xs : List α} {ys : List (Option α)}
    (h : List.Forall₂ (fun x y => y = none ∨ y = some x) xs ys) : ys.reduceOption.Sublist xs := by
  induction h with
  | nil => exact .slnil
  | cons hd _ ih =>
    rcases hd with rfl | rfl
    · rw [List.reduceOption_cons_of_none]
      exact ih.cons _
    · rw [List.reduceOption_cons_of_some]
      exact ih.cons_cons _

/-- The plan of an age-based prune is the part of the index that is old enough, too. -/
theorem buildAgeManifestPruneAuthority_spec {clock : Option ℕ}
    (h : buildAgeManifestPruneAuthority M disk listing keep maxAgeUs clock current held =
      .ok candidates) :
    ∃ listed, Indexed M disk listed ∧ candidates.Sublist listed ∧
      ∀ v, v ∈ disk.eligibleByAge M keep maxAgeUs clock current held ↔
        v ∈ candidates.map Prod.fst := by
  simp only [buildAgeManifestPruneAuthority, readClockUs, bind_eq_ok, pure_eq_ok, orElse_eq_ok,
    mapM_eq_ok] at h
  obtain ⟨-, -, objects, hlist, listed, hindex, objects', hlist', listed', hindex', _,
    ⟨now, hclock, -, -, rfl⟩, old, hold, rfl⟩ := h
  have hindexed := Indexed.of_ok hlist hindex
  obtain rfl : objects' = objects := by
    rw [(listObjects_eq_ok.mp hlist).2, (listObjects_eq_ok.mp hlist').2]
  obtain rfl : listed' = listed := by
    rw [hindex] at hindex'
    exact (Except.ok.inj hindex').symm
  have hsub : old.reduceOption.Sublist listed' := by
    refine (reduceOption_sublist (hold.imp ?_)).trans List.filter_sublist
    rintro v _ ⟨_, -, isOld, -, rfl⟩
    cases isOld
    · exact .inl rfl
    · exact .inr rfl
  refine ⟨listed', hindexed, hsub, fun v => ?_⟩
  rw [Disk.mem_eligibleByAge, hindexed.mem_eligible, List.mem_map, List.mem_map]
  constructor
  · rintro ⟨⟨⟨e, he, rfl⟩, hlt, hlatest, hlive⟩, other, hother, hzero, now', hnow, hage⟩
    have holder : e ∈ listed'.filter fun v => v.1 < current ∧ v.1 ∉
        liveSnapshotVersions current held ++ latestVersions (listed'.map Prod.fst) keep := by
      simp [he, hlt, hlatest, hlive]
    obtain ⟨y, hy, catalog, hread, isOld, hisOld, rfl⟩ := exists_right_of_forall₂ hold holder
    obtain rfl := (hindexed.manifest_iff he hread).mp hother
    obtain rfl : now' = now := Option.some.inj (hnow.symm.trans hclock)
    rw [if_pos ((manifestIsOldEnough_eq_ok hisOld).mpr ⟨hzero, hage⟩)] at hy
    exact ⟨e, List.reduceOption_mem_iff.mpr hy, rfl⟩
  · rintro ⟨e, he, rfl⟩
    obtain ⟨e', he', catalog, hread, isOld, hisOld, hsome⟩ :=
      exists_left_of_forall₂ hold (List.reduceOption_mem_iff.mp he)
    obtain ⟨htrue, rfl⟩ : isOld = true ∧ e' = e := by simpa using hsome
    obtain ⟨hzero, hage⟩ := (manifestIsOldEnough_eq_ok hisOld).mp htrue
    have hmanifest := (hindexed.manifest_iff (List.mem_filter.mp he').1 hread).mpr rfl
    simp only [List.mem_filter, decide_eq_true_eq, List.mem_append, not_or] at he'
    obtain ⟨hmem, hlt, hlive, hlatest⟩ := he'
    exact ⟨⟨⟨e', hmem, rfl⟩, hlt, hlatest, hlive⟩, catalog, hmanifest, hzero, now, hclock, hage⟩

/-- A prune deletes only versions that its policy lets go: all of them if it succeeds, an
initial segment of them if a deletion fails, and none if the plan or the sum of their bytes
fails. -/
theorem pruning_respects_policy {listing : ℕ → Option LifecycleError} {faults : ℕ → Fault}
    {keep current : ℕ} {held : List ℕ} {result : Except LifecycleError ManifestPruneReport} :
    (prune M listing faults keep current held disk = (result, disk') →
      PruneOutcome M disk disk' current (disk.eligible keep current held)
        (buildManifestPruneAuthority M disk listing keep current held) result) ∧
    ∀ maxAgeUs clock,
      pruneByAge M listing faults keep maxAgeUs clock current held disk = (result, disk') →
      PruneOutcome M disk disk' current
        (disk.eligibleByAge M keep maxAgeUs clock current held)
        (buildAgeManifestPruneAuthority M disk listing keep maxAgeUs clock current held)
        result := by
  constructor
  · intro h
    exact .of_plan (fun _ hplan => buildManifestPruneAuthority_spec hplan) h
  · intro maxAgeUs clock h
    exact .of_plan (fun _ hplan => buildAgeManifestPruneAuthority_spec hplan) h

/-- Four versions, all of one data file, and a file next to them. -/
def fourVersions : Disk Catalog where
  objects :=
    [(manifestObjectKey 2, ⟨2, 60, [['f']], []⟩), (manifestObjectKey 0, ⟨0, 40, [['f']], []⟩),
      (manifestObjectKey 1, ⟨1, 50, [['f']], []⟩), (manifestObjectKey 3, ⟨3, 70, [['f']], []⟩),
      (versionsDir ++ ['x'], ⟨9, 0, [], []⟩), (dataDir ++ ['f'], ⟨0, 0, [], []⟩)]
  nodup := by decide +kernel

/-- Version 1 is held, so versions 0 and 2 go; the second deletion fails after the object is
gone. By age only version 0 may go. -/
theorem pruning_respects_policy_four :
    (∃ disk', prune plainMedium (fun _ => none) (fun _ => .none) 1 3 [1] fourVersions =
        (.ok ⟨3, [0, 2], 22⟩, disk') ∧
      disk' = fourVersions.withoutVersions
        ((fourVersions.eligible 1 3 [1]).sort (· ≤ ·))) ∧
    (∃ disk', prune plainMedium (fun _ => none) (fun i => if i = 1 then .late else .none) 1 3 [1]
        fourVersions = (.error (.io "directory sync failed"), disk') ∧
      ∃ gone, gone <+: (fourVersions.eligible 1 3 [1]).sort (· ≤ ·) ∧
        disk' = fourVersions.withoutVersions gone) ∧
    ∃ disk', pruneByAge plainMedium (fun _ => none) (fun _ => .none) 1 50 (some 100) 3 [1]
        fourVersions = (.ok ⟨3, [0], 10⟩, disk') ∧
      disk' = fourVersions.withoutVersions
        ((fourVersions.eligibleByAge plainMedium 1 50 (some 100) 3 [1]).sort (· ≤ ·)) := by
  obtain ⟨first, hfirst⟩ : ∃ disk', prune plainMedium (fun _ => none) (fun _ => .none) 1 3 [1]
      fourVersions = (.ok ⟨3, [0, 2], 22⟩, disk') := ⟨_, Prod.ext (by decide +kernel) rfl⟩
  obtain ⟨second, hsecond⟩ : ∃ disk', prune plainMedium (fun _ => none)
      (fun i => if i = 1 then .late else .none) 1 3 [1] fourVersions =
        (.error (.io "directory sync failed"), disk') := ⟨_, Prod.ext (by decide +kernel) rfl⟩
  obtain ⟨third, hthird⟩ : ∃ disk', pruneByAge plainMedium (fun _ => none) (fun _ => .none) 1 50
      (some 100) 3 [1] fourVersions = (.ok ⟨3, [0], 10⟩, disk') :=
    ⟨_, Prod.ext (by decide +kernel) rfl⟩
  exact ⟨⟨first, hfirst, ((pruning_respects_policy.1 hfirst).complete _ rfl).1⟩,
    ⟨second, hsecond, (pruning_respects_policy.1 hsecond).initial⟩,
    ⟨third, hthird, ((pruning_respects_policy.2 50 (some 100) hthird).complete _ rfl).1⟩⟩

end StrataDB.Lifecycle
