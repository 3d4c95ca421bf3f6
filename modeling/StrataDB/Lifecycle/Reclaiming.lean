import Mathlib.Data.List.TakeWhile
import StrataDB.Lifecycle.Listed
import StrataDB.Storage.Listing

/-! Which data objects a compaction and a vacuum delete. Both go over a fixed list of
objects and delete those of them that no manifest in question lists, so the disk they leave
is the one they found without these. -/

namespace StrataDB.Lifecycle

open Lib Storage

variable {β : Type} {M : Medium β} {disk disk' : Disk β}

/-! ### Names of leftover objects -/

/-- A name below `data/` by which an object is known for one of the dataset's own: that of a
row or segment file, or a temporary one for some target. -/
def Recognized (name : Text) : Prop :=
  (∃ text, extension name = some text ∧
    (text.map Char.toLower = "arrow".toList ∨ text.map Char.toLower = "seg".toList)) ∨
  ∃ processId < 2 ^ 32, ∃ counter < 2 ^ 64, ∃ finalName ≠ [],
    fileName name = some (tmpName processId counter finalName)

variable {c : Char} {before text name key : Text} {processId counter i current v : ℕ}
  {total total' : ℕ × ℕ} {names keys : List Text} {faults : ℕ → Fault} {held : List ℕ}
  {failure : Option LifecycleError} {listing : ℕ → Option LifecycleError}

theorem splitOnce_append (hc : c ∉ before) (after : Text) :
    splitOnce c (before ++ c :: after) = some (before, after) := by
  have hall : ∀ d ∈ before, decide (d ≠ c) = true := by
    intro d hd
    simpa using fun h : d = c => hc (h ▸ hd)
  simp only [splitOnce, List.dropWhile_append_of_pos hall, List.takeWhile_append_of_pos hall]
  simp

theorem splitOnce_eq_some {after : Text} :
    splitOnce c text = some (before, after) ↔ text = before ++ c :: after ∧ c ∉ before := by
  constructor
  · intro h
    have hmem : c ∈ text := by
      by_contra hc
      have hdrop : text.dropWhile (· ≠ c) = [] :=
        List.dropWhile_eq_nil_iff.mpr fun d hd => by simpa using fun hdc : d = c => hc (hdc ▸ hd)
      simp only [splitOnce, hdrop] at h
      cases h
    obtain ⟨before', after', rfl, hc⟩ := List.eq_append_cons_of_mem hmem
    rw [splitOnce_append hc] at h
    cases h
    exact ⟨rfl, hc⟩
  · rintro ⟨rfl, hc⟩
    exact splitOnce_append hc after

theorem isDecimal_iff {bound : ℕ} :
    isDecimal bound text = true ↔ ∃ n < bound, text = Nat.toDigits 10 n := by
  simp only [isDecimal, Option.any_eq_true, decide_eq_true_eq]
  constructor
  · rintro ⟨n, hparse, rfl⟩
    exact ⟨n, Text.lt_of_parseUnsigned hparse, rfl⟩
  · rintro ⟨n, hlt, rfl⟩
    refine ⟨n, ?_, rfl⟩
    rw [← Text.pad_zero]
    exact Text.parseUnsigned_pad 0 hlt

-- `delta`: the equation lemma of the definition would first evaluate the string.
theorem tmpName_eq (finalName : Text) : tmpName processId counter finalName =
    ".tmp-".toList ++ (Nat.toDigits 10 processId ++
      '-' :: (Nat.toDigits 10 counter ++ '-' :: finalName)) := by
  delta tmpName
  simp only [List.append_assoc, List.cons_append]

theorem isStrataTemporaryName_iff :
    isStrataTemporaryName name = true ↔ ∃ processId < 2 ^ 32, ∃ counter < 2 ^ 64,
      ∃ finalName ≠ [], fileName name = some (tmpName processId counter finalName) := by
  simp only [isStrataTemporaryName, Option.any_eq_true, Option.bind_eq_some_iff,
    Text.dropPrefix?_eq_some, Prod.exists, splitOnce_eq_some, decide_eq_true_eq, isDecimal_iff]
  constructor
  · rintro ⟨_, _, ⟨_, ⟨_, hname, rfl⟩, rfl, -⟩, _, finalName, ⟨rfl, -⟩, hne,
      ⟨processId, hprocess, rfl⟩, counter, hcounter, rfl⟩
    exact ⟨processId, hprocess, counter, hcounter, finalName, hne,
      hname.trans (congrArg some (tmpName_eq finalName).symm)⟩
  · rintro ⟨processId, hprocess, counter, hcounter, finalName, hne, hname⟩
    refine ⟨Nat.toDigits 10 processId, Nat.toDigits 10 counter ++ '-' :: finalName,
      ⟨_, ⟨_, hname, ?_⟩, rfl, Text.notMem_toDigits rfl _⟩, _, finalName,
      ⟨rfl, Text.notMem_toDigits rfl _⟩, hne, ⟨processId, hprocess, rfl⟩, counter, hcounter, rfl⟩
    exact tmpName_eq finalName

theorem isRecognizedOrphan_iff : isRecognizedOrphan name = true ↔ Recognized name := by
  rw [isRecognizedOrphan, Bool.or_eq_true, isStrataTemporaryName_iff, or_comm, Recognized]
  refine or_congr_left ?_
  simp only [Option.any_eq_true, Bool.or_eq_true, eqIgnoreAsciiCase, beq_iff_eq]
  rfl

theorem properPath_of_validateKey (h : LocalFs.validateKey key = .ok ()) :
    ProperPath (key.splitOn '/') := by
  simp only [LocalFs.validateKey, bind_eq_ok, ensure_eq_ok] at h
  obtain ⟨-, -, -, -, -, hparts, -⟩ := h
  intro part hpart
  have hgood : badPart part ≠ true := fun hbad => hparts (List.any_eq_true.mpr ⟨part, hpart, hbad⟩)
  simp only [badPart, Bool.or_eq_true, List.isEmpty_iff, beq_iff_eq, not_or, ne_eq] at hgood
  obtain ⟨⟨hne, hdot⟩, hdots⟩ := hgood
  exact ⟨hne, Text.notMem_of_mem_splitOn hpart, hdot, hdots⟩

theorem keyFor_cons_of_ne_nil {path : List Text} (h : path ≠ []) :
    keyFor (name :: path) = name ++ '/' :: keyFor path := by
  obtain ⟨next, rest, rfl⟩ := List.exists_cons_of_ne_nil h
  rw [keyFor, List.intercalate_cons_cons, List.append_assoc, List.singleton_append, keyFor]

theorem fileName_keyFor {path : List Text} {name : Text} (h : ProperPath (path ++ [name])) :
    fileName (keyFor (path ++ [name])) = some name := by
  have hsplit := splitOn_keyFor h (by simp)
  rw [fileName, LocalFs.components_of_proper (by rwa [hsplit]), hsplit]
  simp

theorem properName_tmpName {finalName : Text} (h : '/' ∉ finalName) :
    ProperName (tmpName processId counter finalName) := by
  have hslash : '/' ∉ tmpName processId counter finalName := by
    simp [tmpName_eq, h, Text.notMem_toDigits]
  refine ⟨by simp [tmpName_eq], hslash, ?_, ?_⟩
  · intro heq
    simpa [tmpName_eq] using congrArg List.length heq
  · intro heq
    simpa [tmpName_eq] using congrArg List.length heq

/-- What an interrupted write below `data/` leaves behind is recognized. -/
theorem recognized_tmpPathFor (hprocess : processId < 2 ^ 32) (hcounter : counter < 2 ^ 64)
    (hkey : LocalFs.validateKey key = .ok ()) (hdata : dataDir <+: key) :
    ∃ name, tmpPathFor processId counter key = dataDir ++ name ∧ Recognized name := by
  have hproper := properPath_of_validateKey hkey
  obtain ⟨rest, rfl⟩ := hdata
  have hsplit : (dataDir ++ rest).splitOn '/' = "data".toList :: rest.splitOn '/' :=
    List.splitOn_append_cons_self "data".toList rest
  obtain ⟨path, name, hrest⟩ : ∃ path name, rest.splitOn '/' = path ++ [name] :=
    ⟨_, _, (List.dropLast_concat_getLast (List.splitOn_ne_nil _ _)).symm⟩
  rw [hsplit, hrest] at hproper
  have hname : fileName (dataDir ++ rest) = some name := by
    rw [← keyFor_splitOn (dataDir ++ rest), hsplit, hrest]
    exact @fileName_keyFor ("data".toList :: path) name hproper
  have hslash : '/' ∉ name := (hproper name (by simp)).slash
  have htmp : ProperPath (path ++ [tmpName processId counter name]) := by
    intro part hpart
    rcases List.mem_append.mp hpart with hpart | hpart
    · exact hproper part (by simp [hpart])
    · rw [List.mem_singleton.mp hpart]
      exact properName_tmpName hslash
  refine ⟨keyFor (path ++ [tmpName processId counter name]), ?_,
    .inr ⟨processId, hprocess, counter, hcounter, name, (hproper name (by simp)).ne_nil,
      fileName_keyFor htmp⟩⟩
  rw [tmpPathFor, hname, hsplit, hrest, ← List.cons_append, List.dropLast_concat,
    Option.getD_some, List.cons_append, keyFor_cons_of_ne_nil (by simp)]
  rfl

/-! ### The loops -/

theorem deleteCounted_eq_ok {fault : Fault} {object : ObjectMeta}
    (h : deleteCounted fault total object disk = (.ok total', disk')) :
    disk' = disk.without [object.key] ∧ total' = (total.1 + 1, total.2 + object.size) := by
  simp only [deleteCounted, Effect.bind_eq_ok, Effect.lift_apply, Effect.pure_apply,
    Prod.mk.injEq, checkedAdd_eq_ok, Except.ok.injEq] at h
  obtain ⟨_, disk₁, hdelete, _, _, ⟨⟨-, rfl⟩, rfl⟩, _, _, ⟨⟨-, rfl⟩, rfl⟩, rfl, rfl⟩ := h
  obtain ⟨-, rfl⟩ | ⟨_, he, -⟩ := deleteKey_cases hdelete
  · exact ⟨rfl, rfl⟩
  · cases he

/-- A loop went over objects and deleted some of them. -/
structure Swept (disk disk' : Disk β) (total total' : ℕ × ℕ) (swept : List ObjectMeta) : Prop where
  disk_eq : disk' = disk.without (swept.map ObjectMeta.key)
  total_eq : total' =
    (total.1 + swept.length, total.2 + (swept.map ObjectMeta.size).sum)

theorem Swept.nil (disk : Disk β) (total : ℕ × ℕ) : Swept disk disk total total [] :=
  ⟨by simp, rfl⟩

theorem Swept.cons {disk₁ : Disk β} {total total₁ total' : ℕ × ℕ} {fault : Fault}
    {object : ObjectMeta} {swept : List ObjectMeta}
    (hdelete : deleteCounted fault total object disk = (.ok total₁, disk₁))
    (h : Swept disk₁ disk' total₁ total' swept) :
    Swept disk disk' total total' (object :: swept) := by
  obtain ⟨rfl, rfl⟩ := deleteCounted_eq_ok hdelete
  refine ⟨?_, ?_⟩
  · rw [h.disk_eq, Disk.without_without, List.map_cons, List.singleton_append]
  · rw [h.total_eq, List.length_cons, List.map_cons, List.sum_cons]
    congr 1 <;> omega

/-- The objects the loop of a compaction deletes. -/
def reclaimed (present : List ObjectMeta) (names keys : List Text) : List ObjectMeta :=
  keys.filterMap fun key =>
    if key ∈ names.map (dataDir ++ ·) then none
    else present.find? fun object => object.key = key

theorem reclaimObjects_swept {present : List ObjectMeta}
    (h : reclaimObjects present names faults i total keys disk = (.ok total', disk')) :
    Swept disk disk' total total' (reclaimed present names keys) := by
  induction keys generalizing i total disk with
  | nil =>
    cases h
    exact .nil _ _
  | cons key rest ih =>
    rw [reclaimObjects, Effect.bind_eq_ok] at h
    obtain ⟨name, _, hlift, h⟩ := h
    obtain ⟨hname, rfl⟩ := Prod.mk.inj hlift
    rw [orElse_eq_ok, Text.dropPrefix?_eq_some] at hname
    subst hname
    have hmem : dataDir ++ name ∈ names.map (dataDir ++ ·) ↔ name ∈ names := by simp
    rw [reclaimed, List.filterMap_cons]
    cases hfind : present.find? fun object => object.key = dataDir ++ name with
    | none =>
      simp only [hfind, Effect.bind_eq_ok, Effect.lift_apply, Prod.mk.injEq] at h
      obtain ⟨_, _, ⟨-, rfl⟩, h⟩ := h
      rw [ite_self]
      exact ih h
    | some object =>
      simp only [hfind] at h
      split at h
      · rename_i hprotected
        rw [if_pos (hmem.mpr hprotected)]
        exact ih h
      · rename_i hfree
        rw [Effect.bind_eq_ok] at h
        obtain ⟨total₁, disk₁, hdelete, h⟩ := h
        rw [if_neg (mt hmem.mp hfree)]
        exact .cons hdelete (ih h)

section

variable {present : List ObjectMeta} {names keys : List Text}

variable {m : ObjectMeta}

theorem find?_key_eq_some (hnodup : (present.map ObjectMeta.key).Nodup) {key : Text} :
    (present.find? fun object => object.key = key) = some m ↔ m ∈ present ∧ m.key = key := by
  constructor
  · intro h
    exact ⟨List.mem_of_find?_eq_some h, by simpa using List.find?_some h⟩
  · rintro ⟨hm, rfl⟩
    exact find?_key_eq hnodup hm

theorem mem_reclaimed (hnodup : (present.map ObjectMeta.key).Nodup) :
    m ∈ reclaimed present names keys ↔
      m ∈ present ∧ m.key ∈ keys ∧ m.key ∉ names.map (dataDir ++ ·) := by
  simp only [reclaimed, List.mem_filterMap, Option.ite_none_left_eq_some,
    find?_key_eq_some hnodup]
  constructor
  · rintro ⟨_, hkey, hfree, hm, rfl⟩
    exact ⟨hm, hkey, hfree⟩
  · rintro ⟨hm, hkey, hfree⟩
    exact ⟨_, hkey, hfree, hm, rfl⟩

theorem nodup_reclaimed (hnodup : (present.map ObjectMeta.key).Nodup) (hkeys : keys.Nodup) :
    ((reclaimed present names keys).map ObjectMeta.key).Nodup := by
  rw [reclaimed, List.map_filterMap]
  refine hkeys.filterMap fun key key' found hkey hkey' => ?_
  simp only [Option.mem_def, Option.map_eq_some_iff, Option.ite_none_left_eq_some,
    find?_key_eq_some hnodup] at hkey hkey'
  obtain ⟨_, ⟨-, -, rfl⟩, hfound⟩ := hkey
  obtain ⟨_, ⟨-, -, rfl⟩, hfound'⟩ := hkey'
  rw [hfound, hfound']

end

/-- The objects the loop of a vacuum deletes. -/
def vacuumed (protectedKeys : List Text) (objects : List ObjectMeta) : List ObjectMeta :=
  objects.filter fun object =>
    (object.key.dropPrefix? dataDir).any isRecognizedOrphan && object.key ∉ protectedKeys

theorem vacuumObjects_swept {protectedKeys : List Text} {objects : List ObjectMeta}
    (h : vacuumObjects protectedKeys faults i total objects disk = (.ok total', disk')) :
    Swept disk disk' total total' (vacuumed protectedKeys objects) := by
  induction objects generalizing i total disk with
  | nil =>
    cases h
    exact .nil _ _
  | cons object rest ih =>
    rw [vacuumed, List.filter_cons]
    cases hdrop : object.key.dropPrefix? dataDir with
    | none =>
      simp only [vacuumObjects, hdrop] at h
      exact ih h
    | some name =>
      simp only [vacuumObjects, hdrop] at h
      rw [Option.any_some]
      split at h
      · rename_i hkept
        rw [if_neg (by simpa [imp_iff_not_or] using hkept)]
        exact ih h
      · rename_i hgone
        rw [Effect.bind_eq_ok] at h
        obtain ⟨total₁, disk₁, hdelete, h⟩ := h
        rw [if_pos (by simpa [not_or] using hgone)]
        exact .cons hdelete (ih h)

/-! ### What is deleted -/

/-- The objects of a disk that another one no longer has. -/
def Disk.deleted (disk disk' : Disk β) : List (Text × β) :=
  disk.objects.filter fun o => o.1 ∉ disk'.objects.map Prod.fst

/-- Exactly the objects under some keys were deleted, and counted with their bytes. -/
structure Reclaimed (M : Medium β) (disk disk' : Disk β) (gone : Text → Prop)
    (count bytes : ℕ) : Prop where
  kept : disk'.objects.Sublist disk.objects
  deleted : ∀ o, o ∈ disk.deleted disk' ↔ o ∈ disk.objects ∧ gone o.1
  count_eq : count = (disk.deleted disk').length
  bytes_eq : bytes = ((disk.deleted disk').map fun o => M.size o.2).sum

theorem Disk.mem_deleted_without {o : Text × β} :
    o ∈ disk.deleted (disk.without keys) ↔ o ∈ disk.objects ∧ o.1 ∈ keys := by
  simp only [Disk.deleted, List.mem_filter, decide_eq_true_eq]
  refine and_congr_right fun ho => ?_
  rw [← not_iff_not, not_not]
  constructor
  · intro hmem
    obtain ⟨o', ho', hkey⟩ := List.mem_map.mp hmem
    rw [← hkey]
    exact (Disk.mem_without.mp ho').2
  · intro hkey
    exact List.mem_map_of_mem (Disk.mem_without.mpr ⟨ho, hkey⟩)

/-- A loop over listed objects deletes what its list of them says. -/
theorem Swept.reclaimed {swept : List ObjectMeta} {gone : Text → Prop}
    (h : Swept disk disk' (0, 0) total' swept) (hnodup : (swept.map ObjectMeta.key).Nodup)
    (hmem : ∀ m, m ∈ swept ↔ ∃ o ∈ disk.objects, gone o.1 ∧ m = ⟨o.1, M.size o.2⟩) :
    Reclaimed M disk disk' gone total'.1 total'.2 := by
  obtain ⟨rfl, rfl⟩ := h
  have hkeys : ∀ o ∈ disk.objects, o.1 ∈ swept.map ObjectMeta.key ↔ gone o.1 := by
    intro o ho
    rw [List.mem_map]
    constructor
    · rintro ⟨m, hm, hkey⟩
      obtain ⟨o', -, hgone, rfl⟩ := (hmem m).mp hm
      exact hkey ▸ hgone
    · intro hgone
      exact ⟨_, (hmem _).mpr ⟨o, ho, hgone, rfl⟩, rfl⟩
  let entry := fun o : Text × β => (⟨o.1, M.size o.2⟩ : ObjectMeta)
  have hdeleted : ∀ o, o ∈ disk.deleted (disk.without (swept.map ObjectMeta.key)) ↔
      o ∈ disk.objects ∧ gone o.1 := fun o => by
    rw [Disk.mem_deleted_without]
    exact and_congr_right (hkeys o)
  have hperm : ((disk.deleted (disk.without (swept.map ObjectMeta.key))).map entry).Perm
      swept := by
    refine (List.perm_ext_iff_of_nodup ?_ (hnodup.of_map _)).mpr fun m => ?_
    · refine List.Nodup.of_map ObjectMeta.key ?_
      rw [List.map_map]
      exact disk.nodup.sublist (List.filter_sublist.map Prod.fst)
    · rw [hmem, List.mem_map]
      constructor
      · rintro ⟨o, ho, rfl⟩
        obtain ⟨ho, hgone⟩ := (hdeleted o).mp ho
        exact ⟨o, ho, hgone, rfl⟩
      · rintro ⟨o, ho, hgone, rfl⟩
        exact ⟨o, (hdeleted o).mpr ⟨ho, hgone⟩, rfl⟩
  refine ⟨List.filter_sublist, hdeleted, ?_, ?_⟩
  · rw [← hperm.length_eq, List.length_map]
    exact Nat.zero_add _
  · rw [← (hperm.map ObjectMeta.size).sum_eq, List.map_map]
    exact Nat.zero_add _

/-- The protected names are those that the live versions list. -/
theorem mem_protectVersions {listed : List (ℕ × ListedManifest)} (hindexed : Indexed M disk listed)
    {versions : List ℕ} (h : protectVersions M disk listed versions = .ok names) :
    name ∈ names ↔ ∃ v ∈ versions, disk.Lists M v (dataDir ++ name) := by
  simp only [protectVersions, manifestOf, bind_eq_ok, pure_eq_ok, orElse_eq_ok, mapM_eq_ok] at h
  obtain ⟨lists, hlists, rfl⟩ := h
  have hlist : ∀ {v m catalog}, listed.lookup v = some m →
      readManifestAtKey M disk v m = .ok catalog →
      (disk.Lists M v (dataDir ++ name) ↔ name ∈ catalog.names) := by
    intro v m catalog hm hread
    rw [hindexed.lists_iff (hindexed.lookup_iff.mp hm) hread]
    simp
  rw [List.mem_flatten]
  constructor
  · rintro ⟨_, hmem, hname⟩
    obtain ⟨v, hv, m, hm, catalog, hread, -, -, rfl⟩ := exists_left_of_forall₂ hlists hmem
    exact ⟨v, hv, (hlist hm hread).mpr hname⟩
  · rintro ⟨v, hv, hname⟩
    obtain ⟨_, hmem, m, hm, catalog, hread, -, -, rfl⟩ := exists_right_of_forall₂ hlists hv
    exact ⟨_, hmem, (hlist hm hread).mp hname⟩

theorem mem_liveSnapshotVersions :
    v ∈ liveSnapshotVersions current held ↔ v = current ∨ v ∈ held := by
  rw [liveSnapshotVersions, List.mem_insertionSort, List.mem_dedup, List.mem_cons]

theorem Disk.Lists.dataDir_isPrefix (h : disk.Lists M v key) : dataDir <+: key := by
  obtain ⟨_, -, hkey⟩ := h
  obtain ⟨name, -, rfl⟩ := List.mem_map.mp hkey
  exact List.prefix_append _ _

theorem mem_listObjects {objects : List ObjectMeta}
    (h : listObjects M failure "data".toList disk = .ok objects) {m : ObjectMeta}
    (hdata : dataDir <+: m.key) : m ∈ objects ↔ ∃ o ∈ disk.objects, m = ⟨o.1, M.size o.2⟩ := by
  obtain ⟨-, rfl⟩ := listObjects_eq_ok.mp h
  simp only [List.mem_map, List.mem_filter, decide_eq_true_eq]
  constructor
  · rintro ⟨o, ⟨ho, -⟩, rfl⟩
    exact ⟨o, ho, rfl⟩
  · rintro ⟨o, ho, rfl⟩
    have hstart : "data".toList <+: dataDir := ⟨['/'], rfl⟩
    exact ⟨o, ⟨ho, hstart.trans hdata⟩, rfl⟩

theorem nodup_listObjects {start : Text} {objects : List ObjectMeta}
    (h : listObjects M failure start disk = .ok objects) : (objects.map ObjectMeta.key).Nodup := by
  obtain ⟨-, rfl⟩ := listObjects_eq_ok.mp h
  rw [List.map_map]
  exact disk.nodup.sublist (List.filter_sublist.map Prod.fst)

/-- The keys a compaction may delete the objects of. -/
def Superseded (M : Medium β) (disk : Disk β) (current : ℕ) (held : List ℕ) (key : Text) : Prop :=
  (∃ v, disk.Lists M v key) ∧ ∀ v, v = current ∨ v ∈ held → ¬ disk.Lists M v key

/-- The keys a vacuum may delete the objects of. -/
def Orphaned (M : Medium β) (disk : Disk β) (key : Text) : Prop :=
  (∃ name, key = dataDir ++ name ∧ Recognized name) ∧ ∀ v, ¬ disk.Lists M v key

theorem reclaim_exact {visit : Visit}
    (h : reclaim M visit listing faults current held disk = (.ok total, disk')) :
    Reclaimed M disk disk' (Superseded M disk current held) total.1 total.2 := by
  simp only [reclaim, Effect.reads_bind, id, Effect.bind_eq_ok, Effect.lift_apply,
    Prod.mk.injEq] at h
  obtain ⟨objects, _, ⟨hlist, rfl⟩, listed, _, ⟨hindex, rfl⟩, names, _, ⟨hnames, rfl⟩, keys, _,
    ⟨hkeys, rfl⟩, present, _, ⟨hpresent, rfl⟩, _, _, ⟨-, rfl⟩, h⟩ := h
  have hindexed := Indexed.of_ok hlist hindex
  have hlisted : ∀ key, key ∈ visit.order keys.dedup ↔ ∃ v, disk.Lists M v key := fun key => by
    rw [(visit.perm _).mem_iff, List.mem_dedup, mem_reachableFrom hindexed hkeys]
  have hprotected : ∀ key, dataDir <+: key → (key ∈ names.map (dataDir ++ ·) ↔
      ∃ v, (v = current ∨ v ∈ held) ∧ disk.Lists M v key) := by
    rintro _ ⟨name, rfl⟩
    rw [List.mem_map_of_injective (List.append_right_injective dataDir),
      mem_protectVersions hindexed hnames]
    simp only [mem_liveSnapshotVersions]
  have hnodup := nodup_listObjects hpresent
  refine (reclaimObjects_swept h).reclaimed
    (nodup_reclaimed hnodup ((visit.perm _).nodup_iff.mpr keys.nodup_dedup)) fun m => ?_
  rw [mem_reclaimed hnodup, hlisted]
  constructor
  · rintro ⟨hm, ⟨v, hv⟩, hfree⟩
    have hdata := hv.dataDir_isPrefix
    obtain ⟨o, ho, rfl⟩ := (mem_listObjects hpresent hdata).mp hm
    refine ⟨o, ho, ⟨⟨v, hv⟩, fun w hw hlists => ?_⟩, rfl⟩
    exact hfree ((hprotected _ hdata).mpr ⟨w, hw, hlists⟩)
  · rintro ⟨o, ho, ⟨⟨v, hv⟩, hfree⟩, rfl⟩
    have hdata := hv.dataDir_isPrefix
    refine ⟨(mem_listObjects hpresent hdata).mpr ⟨o, ho, rfl⟩, ⟨v, hv⟩, fun hkey => ?_⟩
    obtain ⟨w, hw, hlists⟩ := (hprotected _ hdata).mp hkey
    exact hfree w hw hlists

theorem vacuum_exact {report : VacuumReport}
    (h : vacuum M listing faults current held disk = (.ok report, disk')) :
    Reclaimed M disk disk' (Orphaned M disk) report.objectsDeleted report.bytesDeleted := by
  simp only [vacuum, Effect.reads_bind, id, Effect.bind_eq_ok, Effect.lift_apply,
    Effect.pure_apply, Prod.mk.injEq, Except.ok.injEq] at h
  obtain ⟨objects, _, ⟨hlist, rfl⟩, listed, _, ⟨hindex, rfl⟩, names, _, ⟨hnames, rfl⟩, keys, _,
    ⟨hkeys, rfl⟩, present, _, ⟨hpresent, rfl⟩, total, _, hloop, rfl, rfl⟩ := h
  have hindexed := Indexed.of_ok hlist hindex
  have hprotected : ∀ key, key ∈ names.map (dataDir ++ ·) ++ keys ↔
      ∃ v, disk.Lists M v key := by
    intro key
    rw [List.mem_append, mem_reachableFrom hindexed hkeys, or_iff_right_of_imp]
    intro hkey
    obtain ⟨name, hname, rfl⟩ := List.mem_map.mp hkey
    obtain ⟨v, -, hv⟩ := (mem_protectVersions hindexed hnames).mp hname
    exact ⟨v, hv⟩
  have hrecognized : ∀ key : Text, (key.dropPrefix? dataDir).any isRecognizedOrphan = true ↔
      ∃ name, key = dataDir ++ name ∧ Recognized name := by
    intro key
    simp only [Option.any_eq_true, Text.dropPrefix?_eq_some, isRecognizedOrphan_iff]
  have hmem : ∀ m, m ∈ vacuumed (names.map (dataDir ++ ·) ++ keys) present ↔
      m ∈ present ∧ Orphaned M disk m.key := by
    intro m
    rw [vacuumed, List.mem_filter, Bool.and_eq_true, hrecognized, decide_eq_true_eq, hprotected,
      not_exists, Orphaned]
  refine (vacuumObjects_swept hloop).reclaimed
    ((nodup_listObjects hpresent).sublist (List.filter_sublist.map _)) fun m => ?_
  rw [hmem]
  constructor
  · rintro ⟨hm, hgone⟩
    obtain ⟨name, hname, -⟩ := hgone.1
    obtain ⟨o, ho, rfl⟩ := (mem_listObjects hpresent ⟨name, hname.symm⟩).mp hm
    exact ⟨o, ho, hgone, rfl⟩
  · rintro ⟨o, ho, hgone, rfl⟩
    obtain ⟨name, hname, -⟩ := hgone.1
    exact ⟨(mem_listObjects hpresent ⟨name, hname.symm⟩).mpr ⟨o, ho, rfl⟩, hgone⟩

/-- A compaction deletes exactly the data objects that only superseded versions list, a vacuum
those with a recognized name that no version lists, and the temporary objects of writes below
`data/` have such names. -/
theorem reclamation_exact :
    (∀ (visit : Visit) listing faults current held total,
      reclaim M visit listing faults current held disk = (.ok total, disk') →
      Reclaimed M disk disk' (Superseded M disk current held) total.1 total.2) ∧
    (∀ listing faults current held report,
      vacuum M listing faults current held disk = (.ok report, disk') →
      Reclaimed M disk disk' (Orphaned M disk) report.objectsDeleted report.bytesDeleted) ∧
    ∀ processId < 2 ^ 32, ∀ counter < 2 ^ 64, ∀ key, LocalFs.validateKey key = .ok () →
      dataDir <+: key →
      ∃ name, tmpPathFor processId counter key = dataDir ++ name ∧ Recognized name := by
  refine ⟨?_, ?_, ?_⟩
  · intro visit listing faults current held total h
    exact reclaim_exact h
  · intro listing faults current held report h
    exact vacuum_exact h
  · intro processId hprocess counter hcounter key hkey hdata
    exact recognized_tmpPathFor hprocess hcounter hkey hdata

/-- Version 1 is superseded by version 2; a row file that no version lists, a leftover
temporary object and a file of another kind stand beside theirs. -/
def twoVersions : Disk Catalog where
  objects :=
    [(manifestObjectKey 1, ⟨1, 40, ["a.arrow".toList], []⟩),
      (manifestObjectKey 2, ⟨2, 50, ["b.arrow".toList], ["b.seg".toList]⟩),
      (dataDir ++ "a.arrow".toList, ⟨5, 0, [], []⟩), (dataDir ++ "b.arrow".toList, ⟨6, 0, [], []⟩),
      (dataDir ++ "b.seg".toList, ⟨7, 0, [], []⟩), (dataDir ++ "c.ARROW".toList, ⟨8, 0, [], []⟩),
      (tmpPathFor 7 0 (dataDir ++ "d".toList), ⟨9, 0, [], []⟩),
      (dataDir ++ "notes.txt".toList, ⟨0, 0, [], []⟩)]
  nodup := by decide +kernel

theorem reclamation_exact_two :
    (∃ disk', reclaim plainMedium ⟨id, fun _ => .rfl⟩ (fun _ => none) (fun _ => .none) 2 []
        twoVersions = (.ok (1, 15), disk') ∧
      Reclaimed plainMedium twoVersions disk' (Superseded plainMedium twoVersions 2 []) 1 15) ∧
    (∃ disk', vacuum plainMedium (fun _ => none) (fun _ => .none) 2 [] twoVersions =
        (.ok ⟨2, 2, 37⟩, disk') ∧
      Reclaimed plainMedium twoVersions disk' (Orphaned plainMedium twoVersions) 2 37) ∧
    ∃ name, tmpPathFor 7 0 (dataDir ++ "d".toList) = dataDir ++ name ∧ Recognized name := by
  obtain ⟨compacted, hcompacted⟩ : ∃ disk', reclaim plainMedium ⟨id, fun _ => .rfl⟩
      (fun _ => none) (fun _ => .none) 2 [] twoVersions = (.ok (1, 15), disk') :=
    ⟨_, Prod.ext (by decide +kernel) rfl⟩
  obtain ⟨vacuumed, hvacuumed⟩ : ∃ disk', vacuum plainMedium (fun _ => none) (fun _ => .none) 2 []
      twoVersions = (.ok ⟨2, 2, 37⟩, disk') := ⟨_, Prod.ext (by decide +kernel) rfl⟩
  exact ⟨⟨compacted, hcompacted, reclamation_exact.1 _ _ _ _ _ _ hcompacted⟩,
    ⟨vacuumed, hvacuumed, reclamation_exact.2.1 _ _ _ _ _ hvacuumed⟩,
    (@reclamation_exact _ plainMedium twoVersions twoVersions).2.2 7 (by decide) 0 (by decide) _
      (by decide +kernel) (List.prefix_append _ _)⟩

end StrataDB.Lifecycle
