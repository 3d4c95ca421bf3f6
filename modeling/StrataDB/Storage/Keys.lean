import StrataDB.Storage.Listing

/-! The keys of a dataset's objects (`storage/src/backend/owner.rs`) and the names that
recovery takes for them from a manifest (`txn/src/dataset.rs`). Three checks look at a
name: those of the owner and of the local backend split it at slashes, that of recovery
looks at the components of a path. What all of them let through lies below the data
directory. -/

namespace StrataDB.Storage

open Lib

/-! ### What the checks accept -/

/-- A key whose segments are names of directory entries on every platform. -/
structure SafeKey (key : Text) : Prop where
  proper : ProperPath (key.splitOn '/')
  backslash : '\\' ∉ key

variable {key : Text} {parts : List Text}

theorem validateKeyComponents_eq_ok_iff :
    validateKeyComponents key false = .ok () ↔ SafeKey key := by
  refine ⟨fun h => ?_, fun h => validateKeyComponents_of_proper h.proper h.backslash⟩
  simp only [validateKeyComponents, bind_eq_ok, ensure_eq_ok] at h
  obtain ⟨-, hslash, hparts⟩ := h
  refine ⟨fun part hpart => ?_, fun hmem => hslash (.inr (.inr hmem))⟩
  have hgood : ¬ badPart part = true := fun hbad =>
    hparts (List.any_eq_true.mpr ⟨part, hpart, hbad⟩)
  simp only [badPart, Bool.or_eq_true, List.isEmpty_iff, beq_iff_eq, not_or] at hgood
  exact ⟨hgood.1.1, Text.notMem_of_mem_splitOn hpart, hgood.1.2, hgood.2⟩

theorem splitOn_append_slash (text rest : Text) :
    (text ++ '/' :: rest).splitOn '/' = text.splitOn '/' ++ rest.splitOn '/' :=
  List.splitOn_append_cons_self ..

namespace SafeKey

variable {key dir name : Text}

theorem ne_nil (h : SafeKey key) : key ≠ [] := LocalFs.ne_nil_of_proper h.proper

theorem relative (h : SafeKey key) : ¬ ['/'] <+: key := by
  rintro ⟨rest, rfl⟩
  refine (h.proper [] ?_).ne_nil rfl
  rw [show ['/'] ++ rest = [] ++ '/' :: rest from rfl, splitOn_append_slash]
  simp

theorem join (hdir : SafeKey dir) (h : SafeKey name) : SafeKey (dir ++ '/' :: name) where
  proper := by
    rw [splitOn_append_slash]
    exact List.forall_mem_append.mpr ⟨hdir.proper, h.proper⟩
  backslash := by simp [hdir.backslash, h.backslash]

theorem of_owned {owner : StorageOwner} (hne : owner.owned.text ≠ []) :
    SafeKey owner.owned.text := by
  have hvalid := owner.owned.valid.resolve_left hne
  refine validateKeyComponents_eq_ok_iff.mp ?_
  simpa [validateKeyComponents, hne] using hvalid

theorem prefixed (h : SafeKey key) (owner : StorageOwner) : SafeKey (owner.prefixed key) := by
  rw [StorageOwner.prefixed_of_ne_nil h.ne_nil]
  split
  · exact h
  · exact (of_owned ‹_›).join h

theorem of_segment (h : ProperName name) (hbackslash : '\\' ∉ name) : SafeKey name where
  proper := by
    have hsplit : (keyFor [name]).splitOn '/' = [name] :=
      splitOn_keyFor (List.forall_mem_singleton.mpr h) (List.cons_ne_nil _ _)
    rw [show keyFor [name] = name by simp [keyFor]] at hsplit
    rw [hsplit]
    exact List.forall_mem_singleton.mpr h
  backslash := hbackslash

end SafeKey

/-! ### Keys of objects -/

/-- A number of twenty digits with an extension. -/
def numbered (number : ℕ) (extension : Text) : Text := Text.pad 20 number ++ extension

theorem safeKey_numbered (number : ℕ) {extension : Text} (hslash : '/' ∉ extension)
    (hbackslash : '\\' ∉ extension) : SafeKey (numbered number extension) := by
  have hpad : ∀ c : Char, c.isDigit = false → c ∉ Text.pad 20 number := fun c hc hmem => by
    rw [Text.isDigit_of_mem_pad hmem] at hc
    cases hc
  -- A name with a digit in it is not made of dots.
  obtain ⟨digit, hdigit⟩ := List.exists_mem_of_ne_nil _ (Text.pad_ne_nil 20 number)
  have hmem : digit ∈ numbered number extension := List.mem_append_left _ hdigit
  have hdot : digit ≠ '.' := fun h => hpad '.' rfl (h ▸ hdigit)
  refine .of_segment ⟨List.ne_nil_of_mem hmem, ?_, ?_, ?_⟩ ?_
  · simp [numbered, hpad '/' rfl, hslash]
  · intro h
    simp [h, hdot] at hmem
  · intro h
    simp [h, hdot] at hmem
  · simp [numbered, hpad '\\' rfl, hbackslash]

namespace StorageOwner

/-- `manifest_object_key`. -/
def manifestObjectKey (version : ℕ) : DatasetKey where
  text := "_versions".toList ++ '/' :: numbered version ".manifest".toList
  valid := validateKeyComponents_eq_ok_iff.mpr
    ((validateKeyComponents_eq_ok_iff.mp (by decide)).join
      (safeKey_numbered version (by decide) (by decide)))

/-- `row_id_high_water_key`. -/
def rowIdHighWaterKey (upTo : ℕ) : DatasetKey where
  text := "_meta/row-id-high-water".toList ++ '/' :: numbered upTo ".reservation".toList
  valid := validateKeyComponents_eq_ok_iff.mpr
    ((validateKeyComponents_eq_ok_iff.mp (by decide)).join
      (safeKey_numbered upTo (by decide) (by decide)))

/-- `data_object_key`. -/
def dataObjectKey (name : Text) : Except FsError DatasetKey :=
  match h : validateKeyComponents name false with
  | .error e => .error e
  | .ok () => .ok {
      text := "data".toList ++ '/' :: name
      valid := validateKeyComponents_eq_ok_iff.mpr
        ((validateKeyComponents_eq_ok_iff.mp (by decide)).join
          (validateKeyComponents_eq_ok_iff.mp h)) }

theorem dataObjectKey_eq_ok_iff {name : Text} {key : DatasetKey} :
    dataObjectKey name = .ok key ↔ SafeKey name ∧ key.text = "data".toList ++ '/' :: name := by
  unfold dataObjectKey
  split
  · rename_i e he
    have hbad : ¬ SafeKey name := fun h => by
      rw [validateKeyComponents_eq_ok_iff.mpr h] at he
      cases he
    simp [hbad]
  · rename_i hvalid
    rw [Except.ok.injEq]
    constructor
    · rintro rfl
      exact ⟨validateKeyComponents_eq_ok_iff.mp hvalid, rfl⟩
    · rintro ⟨-, htext⟩
      cases key
      cases htext
      rfl

variable (owner : StorageOwner)

theorem prefixed_inj {key other : Text} (hne : key ≠ []) (hne' : other ≠ [])
    (h : owner.prefixed key = owner.prefixed other) : key = other := by
  rw [prefixed_of_ne_nil hne, prefixed_of_ne_nil hne'] at h
  split at h
  · exact h
  · simpa using h

end StorageOwner

/-! ### Paths -/

/-- `Path::join`: an absolute path replaces the base. -/
def joinPath (base path : Text) : Text :=
  if ['/'] <+: path then path
  else if base = [] ∨ ['/'] <:+ base then base ++ path
  else base ++ '/' :: path

/-- The components in front of those that the parts name. -/
def leading : List Text → List Component
  | [] :: _ :: _ => [.rootDir]
  | ['.'] :: _ => [.curDir]
  | _ => []

theorem components_eq (path : Text) : components path =
    leading (path.splitOn '/') ++ (path.splitOn '/').filterMap parseComponent := rfl

/-- Only the first part leads, and an empty one only if it is not alone. -/
theorem leading_append (hne : parts ≠ []) (h : parts ≠ [[]]) (more : List Text) :
    leading (parts ++ more) = leading parts := by
  match parts, hne, h with
  | [] :: _ :: _, _, _ => rfl
  | [[]], _, h => exact absurd rfl h
  | (c :: d :: cs) :: parts, _, _ => simp [leading]
  | [c] :: parts, _, _ =>
    by_cases hc : c = '.'
    · simp [leading, hc]
    · simp [leading, hc]

theorem splitOn_ne_singleton {text : Text} (h : text ≠ []) : text.splitOn '/' ≠ [[]] := by
  intro hsplit
  have hkey := keyFor_splitOn text
  rw [hsplit] at hkey
  exact h hkey.symm

/-- A key lies below the base, wherever that is. -/
theorem components_joinPath (base : Text) (h : SafeKey key) :
    components (joinPath base key) = components base ++ (key.splitOn '/').map .normal := by
  have hparts := LocalFs.filterMap_parseComponent h.proper
  have hkey : key.splitOn '/' ≠ [] := List.splitOn_ne_nil _ _
  rw [joinPath, if_neg h.relative]
  split
  · rename_i hbase
    rcases hbase with rfl | ⟨front, rfl⟩
    · exact LocalFs.components_of_proper h.proper
    · rw [show front ++ ['/'] ++ key = front ++ '/' :: key by simp, components_eq, components_eq,
        splitOn_append_slash, splitOn_append_slash, List.filterMap_append, List.filterMap_append,
        hparts]
      have hlead : leading (front.splitOn '/' ++ key.splitOn '/') =
          leading (front.splitOn '/' ++ List.splitOn '/' []) := by
        by_cases hfront : front = []
        · obtain ⟨part, rest, hsplit⟩ := List.exists_cons_of_ne_nil hkey
          rw [hfront, hsplit]
          rfl
        · rw [leading_append (List.splitOn_ne_nil _ _) (splitOn_ne_singleton hfront),
            leading_append (List.splitOn_ne_nil _ _) (splitOn_ne_singleton hfront)]
      rw [hlead]
      simp [parseComponent]
  · rename_i hbase
    rw [not_or] at hbase
    rw [components_eq, components_eq, splitOn_append_slash, List.filterMap_append, hparts,
      leading_append (List.splitOn_ne_nil _ _) (splitOn_ne_singleton hbase.1), List.append_assoc]

/-! ### Names in a manifest -/

/-- Why recovery refuses an entry of a manifest. -/
inductive RecoveryError (ε : Type)
  | duplicate (name : Text)
  | unsafeManifestPath (name : Text)
  | storage (error : FsError)
  | invalid (error : ε)

/-- `safe_join`. -/
def safeJoin {ε : Type} (dataDir name : Text) : Except (RecoveryError ε) Text := do
  ensure ((components name).all Component.isNormal = true) (.unsafeManifestPath name)
  return joinPath dataDir name

section

variable {α σ ε : Type} (owner : StorageOwner) (nameOf : α → Text)
  (check : σ → α → Text → Bytes → Except ε σ)

/-- The loop over the entries of a manifest. What is read under an entry's name is checked
against the entry and against what was read before. -/
def readEntries (dataDir : Text) : List Text → σ → List α → Except (RecoveryError ε) σ
  | _, state, [] => .ok state
  | seen, state, entry :: rest => do
    ensure (nameOf entry ∉ seen) (.duplicate (nameOf entry))
    let path ← safeJoin dataDir (nameOf entry)
    let key ← (StorageOwner.dataObjectKey (nameOf entry)).mapError .storage
    let bytes ← (owner.get key).mapError .storage
    let state ← (check state entry path bytes).mapError .invalid
    readEntries dataDir (nameOf entry :: seen) state rest

/-- `validate_data_files_with_owner` in the dataset's directory. -/
def validateDataFiles (dir : Text) (state : σ) (files : List α) : Except (RecoveryError ε) σ :=
  readEntries owner nameOf check (joinPath dir "data".toList) [] state files

/-- `load_segments_with_owner`. -/
def loadSegments (state : σ) (segments : List α) : Except (RecoveryError ε) σ :=
  readEntries owner nameOf check "data".toList [] state segments

variable {owner nameOf check}

theorem safeKey_of_readEntries {dataDir : Text} {seen : List Text} {state state' : σ}
    {entries : List α}
    (h : readEntries owner nameOf check dataDir seen state entries = .ok state') :
    ∀ entry ∈ entries, SafeKey (nameOf entry) := by
  induction entries generalizing seen state with
  | nil => exact List.forall_mem_nil _
  | cons entry rest ih =>
    simp only [readEntries, bind_eq_ok] at h
    obtain ⟨_, -, _, -, key, hkey, _, -, _, -, hrest⟩ := h
    refine List.forall_mem_cons.mpr ⟨?_, ih hrest⟩
    cases hdata : StorageOwner.dataObjectKey (nameOf entry) with
    | error e =>
      rw [hdata] at hkey
      cases hkey
    | ok made => exact (StorageOwner.dataObjectKey_eq_ok_iff.mp hdata).1

end

/-! ### Confinement -/

theorem mem_keyFor {part : Text} {c : Char} (hpart : part ∈ parts) (hc : c ∈ part) :
    c ∈ keyFor parts := by
  cases parts with
  | nil => cases hpart
  | cons name path =>
    rw [keyFor_cons, List.mem_append, List.mem_flatMap]
    rcases List.mem_cons.mp hpart with rfl | hpart
    · exact .inl hc
    · exact .inr ⟨part, hpart, List.mem_cons_of_mem _ hc⟩

/-- The key of an object as the backend takes it lies below the data directory of the
dataset, and nothing in it leads elsewhere. -/
structure Confined (owner : StorageOwner) (root name : Text) (key : DatasetKey) : Prop where
  accepted : LocalFs.validateKey (owner.prefixed key.text) = .ok ()
  below : ∃ parts ≠ [], components (joinPath root (owner.prefixed key.text)) =
    components (joinPath root (owner.prefixed "data".toList)) ++ parts.map .normal ∧
      keyFor parts = name
  segments : ∀ part ∈ (owner.prefixed key.text).splitOn '/',
    part ≠ [] ∧ part ≠ ['.'] ∧ part ≠ ['.', '.'] ∧ '\\' ∉ part

theorem safeKey_data : SafeKey "data".toList := validateKeyComponents_eq_ok_iff.mp (by decide)

variable (owner : StorageOwner)

theorem prefixed_data (name : Text) :
    owner.prefixed ("data".toList ++ '/' :: name) = owner.prefixed "data".toList ++ '/' :: name :=
  (StorageOwner.prefixed_append (by decide)).symm

theorem confined_of_safe (root : Text) {name : Text} {key : DatasetKey} (h : SafeKey name)
    (hkey : key.text = "data".toList ++ '/' :: name) : Confined owner root name key := by
  have hdata := safeKey_data.prefixed owner
  have hsafe : SafeKey (owner.prefixed key.text) := by
    rw [hkey, prefixed_data]
    exact hdata.join h
  refine ⟨LocalFs.validateKey_of_proper hsafe.proper hsafe.backslash,
    ⟨name.splitOn '/', List.splitOn_ne_nil _ _, ?_, keyFor_splitOn name⟩, fun part hpart => ?_⟩
  · rw [components_joinPath root hsafe, components_joinPath root hdata, hkey, prefixed_data,
      splitOn_append_slash, List.map_append, List.append_assoc]
  · obtain ⟨hne, -, hdot, hdots⟩ := hsafe.proper part hpart
    refine ⟨hne, hdot, hdots, fun hmem => hsafe.backslash ?_⟩
    rw [← keyFor_splitOn (owner.prefixed key.text)]
    exact mem_keyFor hpart hmem

/-- The keys of a dataset's data objects stay below its data directory, in any namespace
and under any root: those of all names that make a key and of all names that recovery
accepts. Different names have different keys, and no key is one of another kind. -/
theorem data_keys_confined (owner : StorageOwner) (root : Text) :
    (∀ name key, StorageOwner.dataObjectKey name = .ok key → Confined owner root name key) ∧
    (∀ name key name' key', StorageOwner.dataObjectKey name = .ok key →
      StorageOwner.dataObjectKey name' = .ok key' →
      owner.prefixed key.text = owner.prefixed key'.text → name = name') ∧
    (∀ {α σ ε : Type} (nameOf : α → Text) (check : σ → α → Text → Bytes → Except ε σ)
      (dir : Text) (state state' : σ) (entries : List α),
      validateDataFiles owner nameOf check dir state entries = .ok state' ∨
        loadSegments owner nameOf check state entries = .ok state' →
      ∀ entry ∈ entries, ∃ key, StorageOwner.dataObjectKey (nameOf entry) = .ok key ∧
        Confined owner root (nameOf entry) key) ∧
    ∀ version upTo name key, StorageOwner.dataObjectKey name = .ok key →
      owner.prefixed (StorageOwner.manifestObjectKey version).text ≠ owner.prefixed key.text ∧
      owner.prefixed (StorageOwner.rowIdHighWaterKey upTo).text ≠ owner.prefixed key.text ∧
      owner.prefixed (StorageOwner.manifestObjectKey version).text ≠
        owner.prefixed (StorageOwner.rowIdHighWaterKey upTo).text := by
  refine ⟨fun name key h => ?_, fun name key name' key' h h' heq => ?_,
    fun nameOf check dir state state' entries h entry hentry => ?_,
    fun version upTo name key h => ?_⟩
  · obtain ⟨hsafe, hkey⟩ := StorageOwner.dataObjectKey_eq_ok_iff.mp h
    exact confined_of_safe owner root hsafe hkey
  · rw [(StorageOwner.dataObjectKey_eq_ok_iff.mp h).2,
      (StorageOwner.dataObjectKey_eq_ok_iff.mp h').2] at heq
    simpa using owner.prefixed_inj (by simp) (by simp) heq
  · have hsafe : SafeKey (nameOf entry) := by
      rcases h with h | h
      · exact safeKey_of_readEntries h entry hentry
      · exact safeKey_of_readEntries h entry hentry
    let key : DatasetKey :=
      ⟨_, validateKeyComponents_eq_ok_iff.mpr (safeKey_data.join hsafe)⟩
    exact ⟨key, StorageOwner.dataObjectKey_eq_ok_iff.mpr ⟨hsafe, rfl⟩,
      confined_of_safe owner root hsafe rfl⟩
  · obtain ⟨-, hkey⟩ := StorageOwner.dataObjectKey_eq_ok_iff.mp h
    -- The first two characters tell the three directories apart.
    have hne : ∀ {key other : DatasetKey}, key.text.take 2 ≠ other.text.take 2 →
        owner.prefixed key.text ≠ owner.prefixed other.text := fun {key other} htake heq =>
      htake (congrArg (List.take 2) (owner.prefixed_inj
        (validateKeyComponents_eq_ok_iff.mp key.valid).ne_nil
        (validateKeyComponents_eq_ok_iff.mp other.valid).ne_nil heq))
    have hdata : key.text.take 2 = ['d', 'a'] := by
      rw [hkey]
      rfl
    have hmanifest : (StorageOwner.manifestObjectKey version).text.take 2 = ['_', 'v'] := rfl
    have hreservation : (StorageOwner.rowIdHighWaterKey upTo).text.take 2 = ['_', 'm'] := rfl
    refine ⟨hne ?_, hne ?_, hne ?_⟩
    · rw [hmanifest, hdata]
      decide
    · rw [hreservation, hdata]
      decide
    · rw [hmanifest, hreservation]
      decide

/-- A namespace with the data file `x`. -/
def oneFileOwner : StorageOwner where
  backend :=
    { root := some (.dir ['d'] (.dir "data".toList (.file ['x'] [9] .nil) .nil) .nil)
      proper := by
        rintro _ ⟨⟩
        refine ⟨?_, ?_, ⟨?_, ?_, ⟨?_, ?_, trivial⟩, trivial⟩, trivial⟩ <;>
          first | decide | constructor <;> decide }
  owned := sampleOwner.owned

/-- Recovery reads the file, so its name has a key below the data directory. -/
theorem data_keys_confined_oneFile :
    validateDataFiles oneFileOwner id (fun n _ _ bytes => if bytes = [9] then .ok (n + 1)
      else .error ()) ['d'] 0 [['x']] = .ok 1 ∧
      ∃ key, StorageOwner.dataObjectKey ['x'] = .ok key ∧ Confined oneFileOwner ['r'] ['x'] key ∧
        oneFileOwner.prefixed (StorageOwner.manifestObjectKey 0).text ≠
          oneFileOwner.prefixed key.text := by
  have hread : validateDataFiles oneFileOwner id (fun n _ _ bytes => if bytes = [9] then .ok (n + 1)
      else .error ()) ['d'] 0 [['x']] = .ok 1 := by rfl
  obtain ⟨-, -, hrecovered, hapart⟩ := data_keys_confined oneFileOwner ['r']
  obtain ⟨key, hkey, hconfined⟩ := hrecovered _ _ _ _ _ _ (.inl hread) ['x'] (by simp)
  exact ⟨hread, key, hkey, hconfined, (hapart 0 0 ['x'] key hkey).1⟩

end StrataDB.Storage
