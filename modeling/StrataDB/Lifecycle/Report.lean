import StrataDB.Lifecycle.Listed

/-! The lifecycle report (`collect` in `txn/src/lifecycle.rs`). Each of its loops adds to
running totals that may overflow. What a loop has visited determines its totals, so that
it ends with the totals of the whole listing or with an error. -/

namespace StrataDB.Lifecycle

open Lib Storage

/-! ### The report -/

/-- What `collect` reads of a manifest: a data file with its row count. -/
structure ReportedManifest where
  version : ℕ
  dataFiles : List (Text × ℕ)
  segments : List Text
  tombstones : List ℕ

structure LifecycleReport where
  observedVersion : ℕ
  manifestObjectCount : ℕ
  manifestBytes : ℕ
  currentManifestBytes : Option ℕ
  dataObjectCount : ℕ
  dataBytes : ℕ
  reachableDataFileCount : ℕ
  reachableDataFileBytes : ℕ
  reachableSegmentCount : ℕ
  reachableSegmentBytes : ℕ
  orphanCandidateCount : ℕ
  orphanCandidateBytes : ℕ
  tombstoneCount : ℕ
  physicalRowCount : ℕ
  deriving DecidableEq

/-- `corrupt_manifest`. -/
def ReportedManifest.corrupt (m : ReportedManifest) (reason : String) : LifecycleError :=
  .corruptManifest (manifestObjectKey m.version) reason

/-- `reachable_keys`: the keys of the data files and those of the segments. -/
def ReportedManifest.reachable (m : ReportedManifest) :
    Except LifecycleError (List Text × List Text) := do
  let dataFiles ← insertReachableKeys m.version [] (m.dataFiles.map Prod.fst)
  let keys ← insertReachableKeys m.version dataFiles m.segments
  return (dataFiles, keys.drop dataFiles.length)

/-- A number of objects and their bytes. -/
abbrev Tally := ℕ × ℕ

/-- One more object. -/
def Tally.add (what : String) (tally : Tally) (size : ℕ) : Except LifecycleError Tally := do
  let count ← checkedAdd (what ++ "_count") tally.1 1
  let bytes ← checkedAdd (what ++ "_bytes") tally.2 size
  return (count, bytes)

/-- What the loop over the listed manifests keeps. -/
structure ManifestTotals where
  objects : Tally := (0, 0)
  current : Option ℕ := none
  keys : List Text := []
  versions : List ℕ := []

/-- The loop of `collect_manifest_objects`. -/
def collectManifestObject (m : ReportedManifest) (t : ManifestTotals) (object : ObjectMeta) :
    Except LifecycleError ManifestTotals := do
  validateListedKey object.key versionsDir
  ensure (object.key ∉ t.keys)
    (m.corrupt s!"duplicate listed manifest object key: {String.ofList object.key}")
  let count ← checkedAdd "manifest_object_count" t.objects.1 1
  let bytes ← checkedAdd "manifest_bytes" t.objects.2 object.size
  let t := { t with objects := (count, bytes), keys := t.keys ++ [object.key] }
  match listedManifestVersion object.key with
  | none => return t
  | some version => do
    ensure (version ∉ t.versions)
      (.corruptManifest (manifestObjectKey version) "duplicate listed manifest version")
    return { t with
      versions := t.versions ++ [version]
      current := if version = m.version then some object.size else t.current }

/-- What the loop over the listed data objects keeps. -/
structure DataTotals where
  objects : Tally := (0, 0)
  dataFiles : Tally := (0, 0)
  segments : Tally := (0, 0)
  orphans : Tally := (0, 0)
  listed : List Text := []
  seen : List Text := []

/-- The loop of `collect` over the data objects. -/
def collectDataObject (m : ReportedManifest) (reachable : List Text × List Text)
    (t : DataTotals) (object : ObjectMeta) : Except LifecycleError DataTotals := do
  validateListedKey object.key dataDir
  ensure (object.key ∉ t.listed)
    (m.corrupt s!"duplicate listed data object key: {String.ofList object.key}")
  let count ← checkedAdd "data_object_count" t.objects.1 1
  let bytes ← checkedAdd "data_bytes" t.objects.2 object.size
  let t := { t with objects := (count, bytes), listed := t.listed ++ [object.key] }
  if object.key ∈ reachable.1 then
    let dataFiles ← t.dataFiles.add "reachable_data_file" object.size
    return { t with dataFiles, seen := t.seen ++ [object.key] }
  else if object.key ∈ reachable.2 then
    let segments ← t.segments.add "reachable_segment" object.size
    return { t with segments, seen := t.seen ++ [object.key] }
  else
    let orphans ← t.orphans.add "orphan_candidate" object.size
    return { t with orphans }

/-- The key sets in their order. -/
def sortedKeys (keys : List Text) : List Text := keys.insertionSort (· ≤ ·)

/-- `collect`. -/
def collect (manifestObjects dataObjects : List ObjectMeta) (m : ReportedManifest) :
    Except LifecycleError LifecycleReport := do
  let reachable ← m.reachable
  let manifests ← manifestObjects.foldlM (collectManifestObject m) {}
  let totals ← dataObjects.foldlM (collectDataObject m reachable) {}
  (sortedKeys reachable.1 ++ sortedKeys reachable.2).forM fun key =>
    ensure (key ∈ totals.seen)
      (m.corrupt s!"reachable object is missing from inventory: {String.ofList key}")
  let tombstones ← m.tombstones.foldlM (fun count _ => checkedAdd "tombstone_count" count 1) 0
  let rows ← m.dataFiles.foldlM
    (fun rows file => checkedAdd "physical_row_count" rows file.2) 0
  return {
    observedVersion := m.version
    manifestObjectCount := manifests.objects.1
    manifestBytes := manifests.objects.2
    currentManifestBytes := manifests.current
    dataObjectCount := totals.objects.1
    dataBytes := totals.objects.2
    reachableDataFileCount := totals.dataFiles.1
    reachableDataFileBytes := totals.dataFiles.2
    reachableSegmentCount := totals.segments.1
    reachableSegmentBytes := totals.segments.2
    orphanCandidateCount := totals.orphans.1
    orphanCandidateBytes := totals.orphans.2
    tombstoneCount := tombstones
    physicalRowCount := rows }

/-! ### Totals -/

/-- The number and the bytes of the objects. -/
def tallyOf (objects : List ObjectMeta) : Tally :=
  (objects.length, (objects.map ObjectMeta.size).sum)

def Tally.Fits (tally : Tally) : Prop := tally.1 < 2 ^ 64 ∧ tally.2 < 2 ^ 64

@[simp] theorem tallyOf_append (objects more : List ObjectMeta) :
    tallyOf (objects ++ more) = tallyOf objects + tallyOf more := by
  simp [tallyOf]

@[simp] theorem tallyOf_singleton (object : ObjectMeta) : tallyOf [object] = (1, object.size) := by
  simp [tallyOf]

theorem tallyOf_filter_le (p : ObjectMeta → Bool) (objects : List ObjectMeta) :
    tallyOf (objects.filter p) ≤ tallyOf objects :=
  ⟨List.length_filter_le p objects,
    (List.filter_sublist.map ObjectMeta.size).sum_le_sum fun _ _ => Nat.zero_le _⟩

variable {tally : Tally} {keys : List Text} {m : ReportedManifest}
  {manifestObjects dataObjects : List ObjectMeta} {r : LifecycleReport}

theorem Tally.Fits.mono {other : Tally} (h : other.Fits) (hle : tally ≤ other) :
    tally.Fits := ⟨hle.1.trans_lt h.1, hle.2.trans_lt h.2⟩

theorem Tally.add_of_fits {what : String} {size : ℕ} (h : Fits (tally + (1, size))) :
    tally.add what size = .ok (tally + (1, size)) := by
  simp only [Tally.add, bind_eq_ok, pure_eq_ok, checkedAdd_eq_ok]
  exact ⟨_, ⟨h.1, rfl⟩, _, ⟨h.2, rfl⟩, rfl⟩

/-- A listing that a loop gets through. -/
structure Inventoried (dir : Text) (objects : List ObjectMeta) : Prop where
  valid : ∀ object ∈ objects, validateListedKey object.key dir = .ok ()
  nodup : (objects.map ObjectMeta.key).Nodup
  fits : (tallyOf objects).Fits

namespace Inventoried

variable {dir : Text} {objects more : List ObjectMeta} {object : ObjectMeta}

theorem nil (dir : Text) : Inventoried dir [] :=
  ⟨List.forall_mem_nil _, List.nodup_nil, by simp [tallyOf, Tally.Fits]⟩

theorem of_append (h : Inventoried dir (objects ++ more)) : Inventoried dir objects where
  valid := (List.forall_mem_append.mp h.valid).1
  nodup := h.nodup.sublist ((List.sublist_append_left objects more).map ObjectMeta.key)
  fits := h.fits.mono (by
    rw [tallyOf_append]
    exact ⟨Nat.le_add_right _ _, Nat.le_add_right _ _⟩)

theorem append_singleton_iff (h : Inventoried dir objects) :
    Inventoried dir (objects ++ [object]) ↔ validateListedKey object.key dir = .ok () ∧
      object.key ∉ objects.map ObjectMeta.key ∧
      (tallyOf objects).1 + 1 < 2 ^ 64 ∧ (tallyOf objects).2 + object.size < 2 ^ 64 := by
  have hnodup : ((objects ++ [object]).map ObjectMeta.key).Nodup ↔
      object.key ∉ objects.map ObjectMeta.key := by
    rw [List.map_append, List.nodup_append_comm]
    simp [h.nodup]
  have hfits : (tallyOf (objects ++ [object])).Fits ↔
      (tallyOf objects).1 + 1 < 2 ^ 64 ∧ (tallyOf objects).2 + object.size < 2 ^ 64 := by
    rw [tallyOf_append, tallyOf_singleton]
    rfl
  constructor
  · intro h'
    exact ⟨h'.valid object (by simp), hnodup.mp h'.nodup, hfits.mp h'.fits⟩
  · rintro ⟨hvalid, hfresh, hlt⟩
    exact ⟨List.forall_mem_append.mpr ⟨h.valid, List.forall_mem_singleton.mpr hvalid⟩,
      hnodup.mpr hfresh, hfits.mpr hlt⟩

end Inventoried

/-! ### Data objects -/

/-- The totals of these objects. -/
def dataTotalsOf (reachable : List Text × List Text) (objects : List ObjectMeta) : DataTotals where
  objects := tallyOf objects
  dataFiles := tallyOf (objects.filter fun o => o.key ∈ reachable.1)
  segments := tallyOf (objects.filter fun o => o.key ∉ reachable.1 ∧ o.key ∈ reachable.2)
  orphans := tallyOf (objects.filter fun o => o.key ∉ reachable.1 ∧ o.key ∉ reachable.2)
  listed := objects.map ObjectMeta.key
  seen := (objects.filter fun o => o.key ∈ reachable.1 ∨ o.key ∈ reachable.2).map ObjectMeta.key

section

variable {m : ReportedManifest} {reachable : List Text × List Text} {objects : List ObjectMeta}

variable {object : ObjectMeta}

/-- No part overflows before the whole does. -/
theorem add_filter {what : String} (p : ObjectMeta → Bool)
    (h : Inventoried dataDir (objects ++ [object])) (hp : p object = true) :
    (tallyOf (objects.filter p)).add what object.size =
      .ok (tallyOf ((objects ++ [object]).filter p)) := by
  have hsum : tallyOf ((objects ++ [object]).filter p) =
      tallyOf (objects.filter p) + (1, object.size) := by
    simp [List.filter_append, hp]
  rw [hsum]
  exact Tally.add_of_fits (hsum ▸ h.fits.mono (tallyOf_filter_le p _))

theorem collectDataObject_of_inventoried (h : Inventoried dataDir (objects ++ [object])) :
    collectDataObject m reachable (dataTotalsOf reachable objects) object =
      .ok (dataTotalsOf reachable (objects ++ [object])) := by
  obtain ⟨hvalid, hfresh, hcount, hbytes⟩ := h.of_append.append_singleton_iff.mp h
  have hcount' : checkedAdd "data_object_count" (tallyOf objects).1 1 = .ok _ :=
    checkedAdd_eq_ok.mpr ⟨hcount, rfl⟩
  have hbytes' : checkedAdd "data_bytes" (tallyOf objects).2 object.size = .ok _ :=
    checkedAdd_eq_ok.mpr ⟨hbytes, rfl⟩
  simp only [collectDataObject, dataTotalsOf, hvalid, ok_bind, hcount', hbytes']
  split_ifs with hfile hsegment
  · rw [add_filter (fun o => decide (o.key ∈ reachable.1)) h (by simpa using hfile)]
    simpa [hfile, List.filter_append, tallyOf] using hfresh
  · rw [add_filter (fun o => decide (o.key ∉ reachable.1 ∧ o.key ∈ reachable.2)) h
      (by simp [hfile, hsegment])]
    simpa [hfile, hsegment, List.filter_append, tallyOf] using hfresh
  · rw [add_filter (fun o => decide (o.key ∉ reachable.1 ∧ o.key ∉ reachable.2)) h
      (by simp [hfile, hsegment])]
    simpa [hfile, hsegment, List.filter_append, tallyOf] using hfresh

theorem collectDataObjects_eq_ok_iff (t : DataTotals) :
    objects.foldlM (collectDataObject m reachable) {} = .ok t ↔
      Inventoried dataDir objects ∧ t = dataTotalsOf reachable objects := by
  refine foldlM_eq_ok_iff (dataTotalsOf reachable) (Inventoried dataDir)
    (fun _ _ => Inventoried.of_append) (fun done object t hdone => ?_)
    (Inventoried.nil dataDir) objects t
  constructor
  · intro h
    have hinv : Inventoried dataDir (done ++ [object]) := by
      simp only [collectDataObject, bind_eq_ok, ensure_eq_ok, checkedAdd_eq_ok] at h
      obtain ⟨_, hvalid, _, hfresh, _, ⟨hcount, -⟩, _, ⟨hbytes, -⟩, -⟩ := h
      exact hdone.append_singleton_iff.mpr ⟨hvalid, hfresh, hcount, hbytes⟩
    rw [collectDataObject_of_inventoried hinv] at h
    exact ⟨hinv, (Except.ok.inj h).symm⟩
  · rintro ⟨hinv, rfl⟩
    exact collectDataObject_of_inventoried hinv

end

/-! ### Manifests -/

/-- The versions that the listed keys are those of. -/
def versionsOf (objects : List ObjectMeta) : List ℕ :=
  objects.filterMap fun o => listedManifestVersion o.key

def manifestTotalsOf (version : ℕ) (objects : List ObjectMeta) : ManifestTotals where
  objects := tallyOf objects
  current := ((objects.filter fun o => listedManifestVersion o.key = some version).map
    ObjectMeta.size).getLast?
  keys := objects.map ObjectMeta.key
  versions := versionsOf objects

section

variable {m : ReportedManifest} {objects : List ObjectMeta}

theorem collectManifestObject_of_inventoried {object : ObjectMeta}
    (h : Inventoried versionsDir (objects ++ [object]))
    (hversions : (versionsOf (objects ++ [object])).Nodup) :
    collectManifestObject m (manifestTotalsOf m.version objects) object =
      .ok (manifestTotalsOf m.version (objects ++ [object])) := by
  obtain ⟨hvalid, hfresh, hcount, hbytes⟩ := h.of_append.append_singleton_iff.mp h
  simp only [collectManifestObject, bind_eq_ok, ensure_eq_ok, checkedAdd_eq_ok]
  refine ⟨(), hvalid, (), hfresh, _, ⟨hcount, rfl⟩, _, ⟨hbytes, rfl⟩, ?_⟩
  cases hversion : listedManifestVersion object.key with
  | none =>
    refine pure_eq_ok.mpr ?_
    simp [manifestTotalsOf, versionsOf, hversion, tallyOf, List.filter_append]
  | some version =>
    have hnew : version ∉ versionsOf objects := by
      rw [versionsOf, List.filterMap_append, List.nodup_append] at hversions
      intro hmem
      exact hversions.2.2 version hmem version (by simp [hversion]) rfl
    refine bind_eq_ok.mpr ⟨(), ensure_eq_ok.mpr hnew, pure_eq_ok.mpr ?_⟩
    by_cases hcurrent : version = m.version <;>
      simp [manifestTotalsOf, versionsOf, hversion, hcurrent, tallyOf, List.filter_append]

theorem collectManifestObjects_eq_ok_iff (t : ManifestTotals) :
    objects.foldlM (collectManifestObject m) {} = .ok t ↔
      (Inventoried versionsDir objects ∧ (versionsOf objects).Nodup) ∧
        t = manifestTotalsOf m.version objects := by
  refine foldlM_eq_ok_iff (manifestTotalsOf m.version)
    (fun objects => Inventoried versionsDir objects ∧ (versionsOf objects).Nodup)
    (fun done more h => ⟨h.1.of_append, ?_⟩) (fun done object t hdone => ?_)
    ⟨Inventoried.nil versionsDir, List.nodup_nil⟩ objects t
  · have hnodup := h.2
    rw [versionsOf, List.filterMap_append] at hnodup
    exact hnodup.sublist (List.sublist_append_left _ _)
  · have hgood : collectManifestObject m (manifestTotalsOf m.version done) object = .ok t →
        Inventoried versionsDir (done ++ [object]) ∧ (versionsOf (done ++ [object])).Nodup := by
      intro h
      simp only [collectManifestObject, bind_eq_ok, ensure_eq_ok, checkedAdd_eq_ok] at h
      obtain ⟨_, hvalid, _, hfresh, _, ⟨hcount, -⟩, _, ⟨hbytes, -⟩, h⟩ := h
      refine ⟨hdone.1.append_singleton_iff.mpr ⟨hvalid, hfresh, hcount, hbytes⟩, ?_⟩
      cases hversion : listedManifestVersion object.key with
      | none => simpa [versionsOf, hversion] using hdone.2
      | some version =>
        simp only [hversion, bind_eq_ok, ensure_eq_ok] at h
        obtain ⟨_, hnew, -⟩ := h
        have hnodup : (version :: versionsOf done).Nodup := List.nodup_cons.mpr ⟨hnew, hdone.2⟩
        rw [versionsOf, List.filterMap_append, List.nodup_append_comm]
        simpa [versionsOf, hversion] using hnodup
    constructor
    · intro h
      obtain ⟨hinv, hversions⟩ := hgood h
      rw [collectManifestObject_of_inventoried hinv hversions] at h
      exact ⟨⟨hinv, hversions⟩, (Except.ok.inj h).symm⟩
    · rintro ⟨⟨hinv, hversions⟩, rfl⟩
      exact collectManifestObject_of_inventoried hinv hversions

end

/-! ### Sums and reachable keys -/

theorem checkedSum_eq_ok_iff {α : Type} {total : String} (f : α → ℕ) (xs : List α) (n : ℕ) :
    xs.foldlM (fun sum x => checkedAdd total sum (f x)) 0 = .ok n ↔
      (xs.map f).sum < 2 ^ 64 ∧ n = (xs.map f).sum := by
  refine foldlM_eq_ok_iff (fun done => (done.map f).sum)
    (fun done => (done.map f).sum < 2 ^ 64) (fun done more h => ?_)
    (fun done x n _ => ?_) (show (([] : List α).map f).sum < 2 ^ 64 by simp) xs n
  · rw [List.map_append, List.sum_append] at h
    omega
  · rw [checkedAdd_eq_ok]
    simp

theorem nodup_insertReachableKeys {version : ℕ} {seen names : List Text} (hseen : seen.Nodup)
    (h : insertReachableKeys version seen names = .ok keys) : keys.Nodup := by
  induction names generalizing seen with
  | nil =>
    cases h
    exact hseen
  | cons name rest ih =>
    simp only [insertReachableKeys, bind_eq_ok, ensure_eq_ok] at h
    obtain ⟨key, -, _, hnew, h⟩ := h
    refine ih ?_ h
    rw [List.nodup_append_comm]
    exact List.nodup_cons.mpr ⟨hnew, hseen⟩

/-- The keys of the data files and those of the segments. -/
def ReportedManifest.fileKeys (m : ReportedManifest) : List Text :=
  m.dataFiles.map fun file => dataDir ++ file.1

@[inherit_doc fileKeys] def ReportedManifest.segmentKeys (m : ReportedManifest) : List Text :=
  m.segments.map (dataDir ++ ·)

theorem ReportedManifest.reachable_eq {reachable : List Text × List Text}
    (h : m.reachable = .ok reachable) :
    reachable = (m.fileKeys, m.segmentKeys) ∧ (m.fileKeys ++ m.segmentKeys).Nodup := by
  simp only [ReportedManifest.reachable, bind_eq_ok, pure_eq_ok] at h
  obtain ⟨files, hfiles, keys, hkeys, rfl⟩ := h
  have hnodup := nodup_insertReachableKeys (nodup_insertReachableKeys List.nodup_nil hfiles) hkeys
  have hfiles : files = m.fileKeys := by
    rw [insertReachableKeys_eq hfiles, List.nil_append, List.map_map]
    rfl
  obtain rfl : keys = m.fileKeys ++ m.segmentKeys := hfiles ▸ insertReachableKeys_eq hkeys
  rw [hfiles, List.drop_left]
  exact ⟨rfl, hnodup⟩

/-- Objects under distinct keys are as many as the keys that are all listed. -/
theorem length_filter_listed {objects : List ObjectMeta}
    (hobjects : (objects.map ObjectMeta.key).Nodup) (hkeys : keys.Nodup)
    (hlisted : ∀ key ∈ keys, key ∈ objects.map ObjectMeta.key) {p : ObjectMeta → Bool}
    (hp : ∀ object, p object = true ↔ object.key ∈ keys) :
    (objects.filter p).length = keys.length := by
  rw [← List.length_map (f := ObjectMeta.key)]
  refine ((List.perm_ext_iff_of_nodup ?_ hkeys).mpr fun key => ?_).length_eq
  · exact hobjects.sublist (List.filter_sublist.map ObjectMeta.key)
  · constructor
    · intro h
      obtain ⟨object, hobject, rfl⟩ := List.mem_map.mp h
      exact (hp object).mp (List.mem_filter.mp hobject).2
    · intro h
      obtain ⟨object, hobject, rfl⟩ := List.mem_map.mp (hlisted key h)
      exact List.mem_map_of_mem (List.mem_filter.mpr ⟨hobject, (hp object).mpr h⟩)

theorem tallyOf_parts (p q : ObjectMeta → Prop) [DecidablePred p] [DecidablePred q]
    (objects : List ObjectMeta) :
    tallyOf objects = tallyOf (objects.filter fun o => p o) +
      tallyOf (objects.filter fun o => ¬ p o ∧ q o) +
        tallyOf (objects.filter fun o => ¬ p o ∧ ¬ q o) := by
  induction objects with
  | nil => rfl
  | cons object rest ih =>
    simp only [tallyOf, List.length_cons, List.map_cons, List.sum_cons, Prod.mk_add_mk,
      Prod.mk.injEq] at ih ⊢
    by_cases hp : p object <;> by_cases hq : q object <;>
      simp [hp, hq, ih.1, ih.2] <;> omega

/-! ### The whole report -/

/-- What a report that was returned says about the two listings and the manifest. -/
structure Reported (manifestObjects dataObjects : List ObjectMeta) (m : ReportedManifest)
    (r : LifecycleReport) : Prop where
  manifests : Inventoried versionsDir manifestObjects ∧ (versionsOf manifestObjects).Nodup
  data : Inventoried dataDir dataObjects
  reachable : (m.fileKeys ++ m.segmentKeys).Nodup
  listed : ∀ key ∈ m.fileKeys ++ m.segmentKeys, key ∈ dataObjects.map ObjectMeta.key
  tombstones : m.tombstones.length < 2 ^ 64
  rows : (m.dataFiles.map Prod.snd).sum < 2 ^ 64
  dataTotals : (r.dataObjectCount, r.dataBytes) = tallyOf dataObjects
  files : (r.reachableDataFileCount, r.reachableDataFileBytes) =
    tallyOf (dataObjects.filter fun o => o.key ∈ m.fileKeys)
  segments : (r.reachableSegmentCount, r.reachableSegmentBytes) =
    tallyOf (dataObjects.filter fun o => o.key ∉ m.fileKeys ∧ o.key ∈ m.segmentKeys)
  orphans : (r.orphanCandidateCount, r.orphanCandidateBytes) =
    tallyOf (dataObjects.filter fun o => o.key ∉ m.fileKeys ∧ o.key ∉ m.segmentKeys)
  physicalRowCount : r.physicalRowCount = (m.dataFiles.map Prod.snd).sum

theorem reported_of_collect (h : collect manifestObjects dataObjects m = .ok r) :
    Reported manifestObjects dataObjects m r := by
  simp only [collect, bind_eq_ok, pure_eq_ok, forM_eq_ok, ensure_eq_ok,
    collectManifestObjects_eq_ok_iff, collectDataObjects_eq_ok_iff, checkedSum_eq_ok_iff] at h
  obtain ⟨_, hreachable, _, ⟨hmanifests, rfl⟩, _, ⟨hdata, rfl⟩, _, hseen, _, ⟨htombstones, rfl⟩, _,
    ⟨hrows, rfl⟩, rfl⟩ := h
  obtain ⟨rfl, hnodup⟩ := ReportedManifest.reachable_eq hreachable
  refine ⟨hmanifests, hdata, hnodup, fun key hkey => ?_, by simpa using htombstones, hrows, rfl,
    rfl, rfl, rfl, rfl⟩
  have hmem : key ∈ sortedKeys m.fileKeys ++ sortedKeys m.segmentKeys := by
    simpa [sortedKeys, List.mem_insertionSort] using hkey
  obtain ⟨object, hobject, rfl⟩ := List.mem_map.mp (hseen key hmem)
  exact List.mem_map_of_mem (List.mem_filter.mp hobject).1

theorem Reported.counts (h : Reported manifestObjects dataObjects m r) :
    r.reachableDataFileCount = m.dataFiles.length ∧
      r.reachableSegmentCount = m.segments.length := by
  obtain ⟨hfiles, hsegments, hapart⟩ := List.nodup_append.mp h.reachable
  obtain ⟨hlisted, hlisted'⟩ := List.forall_mem_append.mp h.listed
  constructor
  · calc r.reachableDataFileCount
        = (dataObjects.filter fun o => o.key ∈ m.fileKeys).length := congrArg Prod.fst h.files
      _ = m.fileKeys.length := length_filter_listed h.data.nodup hfiles hlisted (by simp)
      _ = m.dataFiles.length := List.length_map _
  · have hkeys : ∀ object : ObjectMeta,
        decide (object.key ∉ m.fileKeys ∧ object.key ∈ m.segmentKeys) = true ↔
          object.key ∈ m.segmentKeys := fun object => by
      rw [decide_eq_true_eq]
      exact ⟨And.right, fun hmem => ⟨fun hfile => hapart _ hfile _ hmem rfl, hmem⟩⟩
    calc r.reachableSegmentCount
        = (dataObjects.filter fun o => o.key ∉ m.fileKeys ∧ o.key ∈ m.segmentKeys).length :=
          congrArg Prod.fst h.segments
      _ = m.segmentKeys.length := length_filter_listed h.data.nodup hsegments hlisted' hkeys
      _ = m.segments.length := List.length_map _

/-- A report adds up, and there is none over a listing with a key or a version twice,
without an object that the manifest lists, or with a total that does not fit. -/
theorem lifecycle_report_identities (manifestObjects dataObjects : List ObjectMeta)
    (m : ReportedManifest) :
    (∀ r, collect manifestObjects dataObjects m = .ok r →
      Reported manifestObjects dataObjects m r ∧
      r.dataObjectCount = r.reachableDataFileCount + r.reachableSegmentCount +
        r.orphanCandidateCount ∧
      r.dataBytes = r.reachableDataFileBytes + r.reachableSegmentBytes + r.orphanCandidateBytes ∧
      r.reachableDataFileCount = m.dataFiles.length ∧
      r.reachableSegmentCount = m.segments.length) ∧
    (¬ (dataObjects.map ObjectMeta.key).Nodup ∨ ¬ (manifestObjects.map ObjectMeta.key).Nodup ∨
      ¬ (versionsOf manifestObjects).Nodup ∨ ¬ (m.fileKeys ++ m.segmentKeys).Nodup ∨
      (∃ key ∈ m.fileKeys ++ m.segmentKeys, key ∉ dataObjects.map ObjectMeta.key) ∨
      ¬ (tallyOf dataObjects).Fits ∨ ¬ (tallyOf manifestObjects).Fits ∨
      2 ^ 64 ≤ m.tombstones.length ∨ 2 ^ 64 ≤ (m.dataFiles.map Prod.snd).sum →
      ∃ e, collect manifestObjects dataObjects m = .error e) := by
  constructor
  · intro r hr
    have h := reported_of_collect hr
    have hparts := tallyOf_parts (fun o => o.key ∈ m.fileKeys) (fun o => o.key ∈ m.segmentKeys)
      dataObjects
    rw [← h.dataTotals, ← h.files, ← h.segments, ← h.orphans] at hparts
    obtain ⟨hcount, hbytes⟩ := Prod.mk.inj hparts
    exact ⟨h, hcount, hbytes, h.counts⟩
  · intro hbad
    cases hr : collect manifestObjects dataObjects m with
    | error e => exact ⟨e, rfl⟩
    | ok r =>
      have h := reported_of_collect hr
      rcases hbad with hbad | hbad | hbad | hbad | ⟨key, hkey, hbad⟩ | hbad | hbad | hbad | hbad
      · exact absurd h.data.nodup hbad
      · exact absurd h.manifests.1.nodup hbad
      · exact absurd h.manifests.2 hbad
      · exact absurd h.reachable hbad
      · exact absurd (h.listed key hkey) hbad
      · exact absurd h.data.fits hbad
      · exact absurd h.manifests.1.fits hbad
      · exact absurd h.tombstones (Nat.not_lt.mpr hbad)
      · exact absurd h.rows (Nat.not_lt.mpr hbad)

/-- A data file, a segment and a leftover. -/
theorem lifecycle_report_identities_sample :
    ∃ r, collect [⟨manifestObjectKey 4, 90⟩]
        [⟨"data/1.arrow".toList, 7⟩, ⟨"data/1.seg".toList, 5⟩, ⟨"data/0.arrow".toList, 3⟩]
        ⟨4, [("1.arrow".toList, 6)], ["1.seg".toList], [2]⟩ = .ok r ∧
      r.currentManifestBytes = some 90 ∧ r.orphanCandidateBytes = 3 ∧
      r.dataBytes = r.reachableDataFileBytes + r.reachableSegmentBytes + 3 := by
  have hrun : (collect [⟨manifestObjectKey 4, 90⟩]
      [⟨"data/1.arrow".toList, 7⟩, ⟨"data/1.seg".toList, 5⟩, ⟨"data/0.arrow".toList, 3⟩]
      ⟨4, [("1.arrow".toList, 6)], ["1.seg".toList], [2]⟩).toOption.map
        (fun r => (r.currentManifestBytes, r.orphanCandidateBytes)) = some (some 90, 3) := by
    decide +kernel
  obtain ⟨r, hr, hout⟩ := Option.map_eq_some_iff.mp hrun
  obtain ⟨hcurrent, horphans⟩ := Prod.mk.inj hout
  have hr := toOption_eq_some.mp hr
  obtain ⟨-, -, hbytes, -⟩ := (lifecycle_report_identities _ _ _).1 r hr
  exact ⟨r, hr, hcurrent, horphans, horphans ▸ hbytes⟩

end StrataDB.Lifecycle
