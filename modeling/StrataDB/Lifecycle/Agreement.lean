import StrataDB.Lifecycle.Pruning
import StrataDB.Txn.Plans

/-! Transactions work on a store, whose keys are parsed; the operations here work on a
disk, whose keys are texts. A disk that has the manifests of a store is pruned of the same
versions, and what is left of it has the manifests of what is left of the store. -/

namespace StrataDB.Lifecycle

open Lib Storage

open Txn (Dataset Platform Snapshot)

variable {β : Type} {M : Medium β} {disk disk' : Disk β} {P : Platform} {d d' : Dataset}
  {keep : ℕ} {held : List Snapshot} {versions : List ℕ} {faults : ℕ → Fault}

/-- The disk has the manifests of the store. -/
def Disk.Holds (disk : Disk β) (store : Store) : Prop :=
  disk.versions = store.versions.toFinset

theorem Disk.Holds.mem_iff {store : Store} (h : disk.Holds store) {v : ℕ} :
    v ∈ disk.versions ↔ v ∈ store.versions := by
  rw [h, List.mem_toFinset]

theorem Disk.mem_versions_withoutVersions {gone : List ℕ} {v : ℕ} :
    v ∈ (disk.withoutVersions gone).versions ↔ v ∈ disk.versions ∧ v ∉ gone := by
  simp only [mem_versions, withoutVersions, List.mem_filter, decide_eq_true_eq]
  constructor
  · rintro ⟨o, ⟨ho, hkept⟩, hv⟩
    exact ⟨⟨o, ho, hv⟩, fun hgone => hkept v hgone hv⟩
  · rintro ⟨⟨o, ho, hv⟩, hgone⟩
    refine ⟨o, ⟨ho, fun w hw heq => hgone ?_⟩, hv⟩
    rw [hv] at heq
    exact Option.some.inj heq ▸ hw

theorem listedVersions_ascending (store : Store) :
    (Txn.listedVersions store).Pairwise (· < ·) := by
  have hsorted := List.pairwise_insertionSort (· ≤ ·) store.versions
  have hnodup := (Txn.listedVersions_perm store).nodup_iff.mpr (Txn.versions_nodup store)
  exact hsorted.imp₂ (fun _ _ hle hne => lt_of_le_of_ne hle hne) hnodup

/-- The plan of the store lists the versions that the policy lets go of the disk. -/
theorem Disk.Holds.sort_eligible (h : disk.Holds d.store)
    (hplan : Txn.buildManifestPruneAuthority P keep d.current held d.store = .ok versions) :
    (disk.eligible keep d.current.version (held.map Snapshot.version)).sort (· ≤ ·) =
      versions := by
  simp only [Txn.buildManifestPruneAuthority, Txn.buildPlan, bind_eq_ok, pure_eq_ok] at hplan
  obtain ⟨plan, ⟨-, -, _, -, _, -, _, -, -, -, rfl⟩, -, -, rfl⟩ := hplan
  have hascending := listedVersions_ascending d.store
  have hversions : (Txn.listedVersions d.store).toFinset = disk.versions := by
    rw [h, List.toFinset_eq_of_perm _ _ (Txn.listedVersions_perm d.store)]
  refine sort_eq_of_ascending (hascending.filter _) fun v => ?_
  rw [Disk.mem_eligible_of_ascending hascending hversions]
  simp [Txn.latestVersions, latestVersions, Txn.liveVersions, liveSnapshotVersions, not_or]

theorem mem_versions_of_deleteObject {v version : ℕ} {fault : Fault}
    (h : Txn.deleteObject (.manifest version) fault d = (.ok (), d')) :
    v ∈ d'.store.versions ↔ v ∈ d.store.versions ∧ v ≠ version := by
  obtain rfl : d' = { d with store := d.store.erase (.manifest version) } := by
    unfold Txn.deleteObject Store.delete at h
    cases fault with
    | early => cases h
    | none =>
      split_ifs at h
      · cases h
      · cases h
        rfl
    | late => split_ifs at h <;> cases h
  rw [Store.mem_versions, Store.mem_versions, Store.get_erase]
  split <;> simp_all

/-- The versions that a prune of the store leaves. -/
theorem mem_versions_of_deletes {r : List Unit} {i v : ℕ}
    (hrun : Effect.forEach (fun p : ℕ × ℕ => Txn.deleteObject (.manifest p.1) (faults p.2))
      (versions.zipIdx i) d = (.ok r, d')) :
    v ∈ d'.store.versions ↔ v ∈ d.store.versions ∧ v ∉ versions := by
  induction versions generalizing d i r with
  | nil =>
    cases hrun
    simp
  | cons version versions ih =>
    rw [List.zipIdx_cons, Effect.forEach] at hrun
    simp only [Effect.bind_eq_ok, Effect.pure_apply, Prod.mk.injEq, Except.ok.injEq] at hrun
    obtain ⟨_, d₁, hdelete, _, d₂, hrest, -, rfl⟩ := hrun
    rw [ih hrest, mem_versions_of_deleteObject hdelete, List.mem_cons, not_or, and_assoc]

/-- A disk that has the manifests of a store is pruned as the store is. -/
theorem prune_agrees (h : disk.Holds d.store) {report : Txn.ManifestPruneReport}
    {report' : ManifestPruneReport} {listing : ℕ → Option LifecycleError} {faults' : ℕ → Fault}
    (hstore : Txn.pruneManifests P keep held faults d = (.ok report, d'))
    (hdisk : prune M listing faults' keep d.current.version (held.map Snapshot.version) disk =
      (.ok report', disk')) :
    report.observedVersion = report'.observedVersion ∧
      report.deletedManifestVersions = report'.deletedManifestVersions ∧
      disk'.Holds d'.store := by
  have houtcome : PruneOutcome M disk disk' d.current.version
      (disk.eligible keep d.current.version (held.map Snapshot.version)) _ (.ok report') :=
    .of_plan (fun _ hplan => buildManifestPruneAuthority_spec hplan) hdisk
  obtain ⟨rfl, rfl⟩ := houtcome.complete report' rfl
  unfold Txn.pruneManifests Txn.deleteAuthorizedManifests at hstore
  simp only [Effect.bind_eq_ok, Effect.reads_bind, Effect.lift_apply, Prod.mk.injEq] at hstore
  obtain ⟨versions, _, ⟨hplan, rfl⟩, bytes, _, ⟨-, rfl⟩, r, d₁, hrun, hreport⟩ := hstore
  cases hreport
  have hsort := h.sort_eligible hplan
  refine ⟨rfl, hsort.symm, ?_⟩
  ext v
  rw [List.mem_toFinset, mem_versions_of_deletes hrun, hsort, Disk.mem_versions_withoutVersions,
    h.mem_iff]

end StrataDB.Lifecycle
