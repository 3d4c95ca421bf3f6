import StrataDB.Lib.Selection
import StrataDB.Lifecycle.Inventory

/-! What the listings of the lifecycle operations say about the disk. An index of the
manifests holds every object under a manifest's key, once for each version and in the
order of the versions; what is read through it is what the disk's manifests list. -/

namespace StrataDB.Lifecycle

open Lib Storage

variable {β : Type} {M : Medium β} {disk disk' : Disk β}

namespace Disk

theorem get_eq_some {key : Text} {contents : β} :
    disk.get key = some contents ↔ (key, contents) ∈ disk.objects :=
  lookup_eq_some_iff_mem disk.nodup

variable {o : Text × β}

theorem eq_of_key_eq {o' : Text × β} (ho : o ∈ disk.objects) (ho' : o' ∈ disk.objects)
    (heq : o.1 = o'.1) : o = o' := List.inj_on_of_nodup_map disk.nodup ho ho' heq

@[simp] theorem without_nil : disk.without [] = disk := by
  ext1
  simp [without]

@[simp] theorem without_without (keys more : List Text) :
    (disk.without keys).without more = disk.without (keys ++ more) := by
  ext1
  simp only [without, List.filter_filter, List.mem_append, not_or, Bool.decide_and]
  exact List.filter_congr fun o _ => Bool.and_comm _ _

theorem mem_without {keys : List Text} :
    o ∈ (disk.without keys).objects ↔ o ∈ disk.objects ∧ o.1 ∉ keys := by
  simp [without]

/-- A manifest of a version is on the disk. -/
def Manifest (disk : Disk β) (M : Medium β) (version : ℕ) (catalog : Catalog) : Prop :=
  ∃ o ∈ disk.objects, listedManifestVersion o.1 = some version ∧
    M.decode o.1 version o.2 = .ok catalog

/-- A manifest of a version on the disk lists an object. -/
def Lists (disk : Disk β) (M : Medium β) (version : ℕ) (key : Text) : Prop :=
  ∃ catalog, disk.Manifest M version catalog ∧ key ∈ catalog.names.map (dataDir ++ ·)

end Disk

variable {failure : Option LifecycleError} {key : Text} {version : ℕ}
  {listed : List (ℕ × ListedManifest)} {keys : List Text}

theorem listObjects_eq_ok {start : Text} {objects : List ObjectMeta} :
    listObjects M failure start disk = .ok objects ↔ failure = none ∧
      objects = (disk.objects.filter fun o => start <+: o.1).map fun o => ⟨o.1, M.size o.2⟩ := by
  unfold listObjects
  split <;> simp [eq_comm]

theorem deleteKey_cases {fault : Fault} {r : Except LifecycleError Unit}
    (h : deleteKey fault key disk = (r, disk')) :
    (r = .ok () ∧ disk' = disk.without [key]) ∨
      ∃ e, r = .error e ∧ (disk' = disk ∨ disk' = disk.without [key]) := by
  unfold deleteKey at h
  split at h
  · cases h
    exact .inr ⟨_, rfl, .inl rfl⟩
  · split at h <;> cases h
    · exact .inr ⟨_, rfl, .inl rfl⟩
    · exact .inr ⟨_, rfl, .inl rfl⟩
    · exact .inr ⟨_, rfl, .inr rfl⟩
    · exact .inl ⟨rfl, rfl⟩

theorem checkedAdd_eq_ok {total : String} {current value sum : ℕ} :
    checkedAdd total current value = .ok sum ↔
      current + value < 2 ^ 64 ∧ sum = current + value := by
  simp only [checkedAdd, bind_eq_ok, ensure_eq_ok, pure_eq_ok, exists_const]
  rw [eq_comm (a := sum)]

/-! ### The index -/

theorem versionsDir_isPrefix (h : listedManifestVersion key = some version) :
    versionsDir <+: key := by
  rw [listedManifestVersion, Option.bind_assoc, Option.bind_eq_some_iff] at h
  obtain ⟨rest, hrest, -⟩ := h
  exact ⟨rest, (Text.dropPrefix?_eq_some.mp hrest).symm⟩

/-- The index `listed` is that of the disk's manifests. -/
structure Indexed (M : Medium β) (disk : Disk β) (listed : List (ℕ × ListedManifest)) :
    Prop where
  ascending : listed.Pairwise fun a b => a.1 < b.1
  mem_iff : ∀ v m, (v, m) ∈ listed ↔
    ∃ o ∈ disk.objects, listedManifestVersion o.1 = some v ∧ m = ⟨o.1, M.size o.2⟩

theorem indexObjects_spec {versions listed : List (ℕ × ListedManifest)} {objects : List ObjectMeta}
    (hn : (versions.map Prod.fst).Nodup) (h : indexObjects versions objects = .ok listed) :
    (listed.map Prod.fst).Nodup ∧ ∀ v m, (v, m) ∈ listed ↔ (v, m) ∈ versions ∨
      ∃ object ∈ objects, listedManifestVersion object.key = some v ∧
        m = ⟨object.key, object.size⟩ := by
  induction objects generalizing versions with
  | nil =>
    cases h
    simpa using hn
  | cons object rest ih =>
    simp only [indexObjects, bind_eq_ok] at h
    obtain ⟨-, -, h⟩ := h
    split at h
    · rename_i hversion
      obtain ⟨hnodup, hmem⟩ := ih hn h
      refine ⟨hnodup, fun v m => ?_⟩
      rw [hmem, List.exists_mem_cons_iff, hversion]
      simp
    · rename_i version hversion
      simp only [bind_eq_ok, ensure_eq_ok] at h
      obtain ⟨-, hfresh, h⟩ := h
      have hn' : ((versions ++ [(version, (⟨object.key, object.size⟩ : ListedManifest))]).map
          Prod.fst).Nodup := by
        rw [List.map_append, List.map_singleton, List.nodup_append]
        refine ⟨hn, List.nodup_singleton _, fun a ha b hb heq => ?_⟩
        obtain rfl := List.mem_singleton.mp hb
        exact hfresh (heq ▸ ha)
      obtain ⟨hnodup, hmem⟩ := ih hn' h
      refine ⟨hnodup, fun v m => ?_⟩
      rw [hmem, List.exists_mem_cons_iff, hversion, List.mem_append, List.mem_singleton, or_assoc,
        Prod.mk.injEq, Option.some.injEq, eq_comm (a := v)]

theorem Indexed.of_ok {objects : List ObjectMeta}
    (hlist : listObjects M failure "_versions".toList disk = .ok objects)
    (hindex : indexManifestObjects objects = .ok listed) : Indexed M disk listed := by
  simp only [indexManifestObjects, bind_eq_ok, pure_eq_ok] at hindex
  obtain ⟨versions, hversions, rfl⟩ := hindex
  obtain ⟨hnodup, hmem⟩ := @indexObjects_spec [] _ _ List.nodup_nil hversions
  refine ⟨pairwise_lt_insertionSort hnodup, fun v m => ?_⟩
  obtain ⟨-, rfl⟩ := listObjects_eq_ok.mp hlist
  rw [List.mem_insertionSort, hmem]
  simp only [List.not_mem_nil, false_or, List.mem_map, List.mem_filter, decide_eq_true_eq]
  constructor
  · rintro ⟨_, ⟨o, ⟨ho, -⟩, rfl⟩, hv, hm⟩
    exact ⟨o, ho, hv, hm⟩
  · rintro ⟨o, ho, hv, hm⟩
    have hstart : "_versions".toList <+: o.1 := by
      have hdir : "_versions".toList <+: versionsDir := ⟨['/'], rfl⟩
      exact hdir.trans (versionsDir_isPrefix hv)
    exact ⟨_, ⟨o, ⟨ho, hstart⟩, rfl⟩, hv, hm⟩

namespace Indexed

variable {listed : List (ℕ × ListedManifest)}

theorem nodup (h : Indexed M disk listed) : (listed.map Prod.fst).Nodup := by
  rw [List.Nodup, List.pairwise_map]
  exact h.ascending.imp fun hlt => hlt.ne

variable {v : ℕ} {m : ListedManifest} {catalog : Catalog} {key : Text}

theorem lookup_iff (h : Indexed M disk listed) :
    listed.lookup v = some m ↔ (v, m) ∈ listed := lookup_eq_some_iff_mem h.nodup

theorem object_unique (h : Indexed M disk listed) {o o' : Text × β} (ho : o ∈ disk.objects)
    (ho' : o' ∈ disk.objects) (hv : listedManifestVersion o.1 = some v)
    (hv' : listedManifestVersion o'.1 = some v) : o = o' := by
  have hm := h.lookup_iff.mpr ((h.mem_iff v _).mpr ⟨o, ho, hv, rfl⟩)
  have hm' := h.lookup_iff.mpr ((h.mem_iff v _).mpr ⟨o', ho', hv', rfl⟩)
  rw [hm] at hm'
  exact Disk.eq_of_key_eq ho ho' (congrArg ListedManifest.key (Option.some.inj hm'))

/-- What is read of a listed manifest is what the disk holds for its version. -/
theorem manifest_iff (h : Indexed M disk listed) {other : Catalog} (hm : (v, m) ∈ listed)
    (hread : readManifestAtKey M disk v m = .ok catalog) :
    disk.Manifest M v other ↔ other = catalog := by
  obtain ⟨o, ho, hv, rfl⟩ := (h.mem_iff v m).mp hm
  have hdecode : M.decode o.1 v o.2 = .ok catalog := by
    simp only [readManifestAtKey, bind_eq_ok, orElse_eq_ok] at hread
    obtain ⟨-, -, -, -, contents, hget, hdecode⟩ := hread
    rw [Disk.get_eq_some.mpr (show (o.1, o.2) ∈ disk.objects from ho)] at hget
    cases hget
    exact hdecode
  constructor
  · rintro ⟨o', ho', hv', hother⟩
    obtain rfl := h.object_unique ho ho' hv hv'
    rw [hdecode] at hother
    exact (Except.ok.inj hother).symm
  · rintro rfl
    exact ⟨o, ho, hv, hdecode⟩

theorem lists_iff (h : Indexed M disk listed) (hm : (v, m) ∈ listed)
    (hread : readManifestAtKey M disk v m = .ok catalog) :
    disk.Lists M v key ↔ key ∈ catalog.names.map (dataDir ++ ·) := by
  simp only [Disk.Lists, h.manifest_iff hm hread, exists_eq_left]

/-- A version that lists something is among those in the index. -/
theorem mem_of_lists (h : Indexed M disk listed) (hlists : disk.Lists M v key) :
    ∃ m, (v, m) ∈ listed := by
  obtain ⟨_, ⟨o, ho, hv, -⟩, -⟩ := hlists
  exact ⟨_, (h.mem_iff v _).mpr ⟨o, ho, hv, rfl⟩⟩

end Indexed

/-! ### Reachable objects -/

theorem insertReachableKeys_eq {seen names : List Text}
    (h : insertReachableKeys version seen names = .ok keys) :
    keys = seen ++ names.map (dataDir ++ ·) := by
  induction names generalizing seen with
  | nil =>
    cases h
    simp
  | cons name rest ih =>
    simp only [insertReachableKeys, manifestDataKey, bind_eq_ok, pure_eq_ok] at h
    obtain ⟨_, ⟨-, -, rfl⟩, -, -, h⟩ := h
    rw [ih h, List.append_assoc, List.map_cons, List.singleton_append]

theorem reachableKeys_eq {catalog : Catalog} (h : reachableKeys catalog = .ok keys) :
    keys = catalog.names.map (dataDir ++ ·) :=
  insertReachableKeys_eq h

/-- The keys reachable from every manifest are the listed ones. -/
theorem mem_reachableFrom (hindexed : Indexed M disk listed)
    (h : reachableFrom M disk listed = .ok keys) : key ∈ keys ↔ ∃ v, disk.Lists M v key := by
  simp only [reachableFrom, bind_eq_ok, pure_eq_ok, mapM_eq_ok] at h
  obtain ⟨lists, hlists, rfl⟩ := h
  rw [List.mem_flatten]
  constructor
  · rintro ⟨_, hmem, hkey⟩
    obtain ⟨⟨v, m⟩, hm, catalog, hread, hkeys⟩ := exists_left_of_forall₂ hlists hmem
    rw [reachableKeys_eq hkeys] at hkey
    exact ⟨v, (hindexed.lists_iff hm hread).mpr hkey⟩
  · rintro ⟨v, hkey⟩
    obtain ⟨m, hm⟩ := hindexed.mem_of_lists hkey
    obtain ⟨keys, hmem, catalog, hread, hkeys⟩ := exists_right_of_forall₂ hlists hm
    refine ⟨keys, hmem, ?_⟩
    rw [reachableKeys_eq hkeys]
    exact (hindexed.lists_iff hm hread).mp hkey

/-- Objects that say what they are. -/
def plainMedium : Medium Catalog where
  size catalog := catalog.version + 10
  decode _ version catalog :=
    if catalog.version = version then .ok catalog else .error (.invalid "version mismatch")
  validate _ _ := .ok ()

end StrataDB.Lifecycle
