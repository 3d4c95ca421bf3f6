import StrataDB.Lib.Selection
import StrataDB.Storage.LocalFs

/-! What a listing holds. `walk_spec` is the induction over the tree: a directory is only
left out if its path and the prefix asked for part before the end of both, and then no
key below it starts with that prefix. The keys it returns are keys that `get` takes, but
for those with a backslash in them. -/

namespace StrataDB.Storage

open Lib

/-! ### Paths -/

theorem keyFor_cons (name : Text) (path : List Text) :
    keyFor (name :: path) = name ++ path.flatMap fun part => '/' :: part := by
  induction path generalizing name with
  | nil => simp [keyFor]
  | cons next path ih =>
    have hnext : keyFor (name :: next :: path) = name ++ ['/'] ++ keyFor (next :: path) :=
      List.intercalate_cons_cons
    rw [hnext, ih]
    simp

theorem keyFor_isPrefix (path more : List Text) : keyFor path <+: keyFor (path ++ more) := by
  cases path with
  | nil => exact List.nil_prefix
  | cons name path =>
    rw [List.cons_append, keyFor_cons, keyFor_cons, List.flatMap_append, ← List.append_assoc]
    exact List.prefix_append _ _

def ProperPath (path : List Text) : Prop := ∀ name ∈ path, ProperName name

theorem splitOn_keyFor {path : List Text} (hproper : ProperPath path) (hne : path ≠ []) :
    (keyFor path).splitOn '/' = path :=
  List.splitOn_intercalate '/' (fun name hname => (hproper name hname).slash) hne

theorem keyFor_splitOn (key : Text) : keyFor (key.splitOn '/') = key :=
  List.intercalate_splitOn '/'

theorem keyFor_inj {path other : List Text} (hpath : ProperPath path) (hother : ProperPath other)
    (hne : path ≠ []) (hne' : other ≠ []) (heq : keyFor path = keyFor other) : path = other := by
  rw [← splitOn_keyFor hpath hne, heq, splitOn_keyFor hother hne']

/-! ### Trees -/

namespace Dir

variable {d rest : Dir} {name : Text} {path : List Text} {contents c : Bytes}

theorem child_mem_names {found : Found} (h : d.child name = some found) : name ∈ d.names := by
  induction d with
  | nil => cases h
  | file other contents rest ih =>
    rw [child] at h
    split at h
    · exact List.mem_cons.mpr (.inl (Eq.symm ‹_›))
    · exact List.mem_cons.mpr (.inr (ih h))
  | dir other sub rest _ ih =>
    rw [child] at h
    split at h
    · exact List.mem_cons.mpr (.inl (Eq.symm ‹_›))
    · exact List.mem_cons.mpr (.inr (ih h))

/-- A path with a file at its end starts with a name of the directory. -/
theorem exists_of_read (h : d.read path = .ok contents) :
    ∃ name ∈ d.names, ∃ more, path = name :: more := by
  cases path with
  | nil => cases h
  | cons name more =>
    refine ⟨name, ?_, more, rfl⟩
    cases hchild : d.child name with
    | none => simp [read, hchild] at h
    | some found => exact child_mem_names hchild

theorem read_file (hfresh : name ∉ rest.names) :
    (file name contents rest).read path = .ok c ↔
      (path = [name] ∧ c = contents) ∨ rest.read path = .ok c := by
  cases path with
  | nil => simp [read]
  | cons first more =>
    by_cases hname : name = first
    · subst hname
      have hrest : rest.read (name :: more) ≠ .ok c := by
        intro h
        obtain ⟨_, hmem, _, heq⟩ := exists_of_read h
        cases heq
        exact hfresh hmem
      have hread : (file name contents rest).read (name :: more) =
          if more = [] then .ok contents else .error .notADirectory := by
        simp [read, child]
      rw [hread, or_iff_left hrest]
      by_cases hmore : more = [] <;> simp [hmore, eq_comm]
    · have hchild : (file name contents rest).child first = rest.child first := by
        rw [child, if_neg hname]
      simp [read, hchild, Ne.symm hname]

theorem read_dir {sub : Dir} (hfresh : name ∉ rest.names) :
    (dir name sub rest).read path = .ok c ↔
      (∃ more, path = name :: more ∧ sub.read more = .ok c) ∨ rest.read path = .ok c := by
  cases path with
  | nil => simp [read]
  | cons first more =>
    by_cases hname : name = first
    · subst hname
      have hrest : rest.read (name :: more) ≠ .ok c := by
        intro h
        obtain ⟨_, hmem, _, heq⟩ := exists_of_read h
        cases heq
        exact hfresh hmem
      have hread : (dir name sub rest).read (name :: more) = sub.read more := by
        simp [read, child]
      simp [hread, hrest]
    · have hchild : (dir name sub rest).child first = rest.child first := by
        rw [child, if_neg hname]
      simp [read, hchild, Ne.symm hname]

theorem properPath_of_read (hproper : d.Proper) (h : d.read path = .ok contents) :
    ProperPath path := by
  induction d generalizing path with
  | nil => cases path <;> cases h
  | file name c rest ih =>
    obtain ⟨hname, hfresh, hrest⟩ := hproper
    rcases (read_file hfresh).mp h with ⟨rfl, _⟩ | h
    · exact List.forall_mem_singleton.mpr hname
    · exact ih hrest h
  | dir name sub rest ihsub ih =>
    obtain ⟨hname, hfresh, hsub, hrest⟩ := hproper
    rcases (read_dir hfresh).mp h with ⟨more, rfl, hmore⟩ | h
    · exact List.forall_mem_cons.mpr ⟨hname, ihsub hsub hmore⟩
    · exact ih hrest h

end Dir

/-! ### The walk -/

namespace LocalFs

variable {start : Text}

variable {d : Dir} {path : List Text} {key : Text} {contents : Bytes}

/-- What a walk returns for the directory at a path: the files with a key as asked for,
though it does not look into every directory. -/
theorem walk_spec (hproper : d.Proper) (path : List Text) (object : ObjectMeta) :
    object ∈ walk start path d ↔
      start <+: object.key ∧ ∃ more contents, d.read more = .ok contents ∧
        object = ⟨keyFor (path ++ more), contents.length⟩ := by
  induction d generalizing path with
  | nil =>
    have hread : ∀ more contents, Dir.nil.read more ≠ .ok contents := by
      intro more contents h
      obtain ⟨_, hmem, _⟩ := Dir.exists_of_read h
      cases hmem
    simp [walk, hread]
  | file name contents rest ih =>
    obtain ⟨hname, hfresh, hrest⟩ := hproper
    simp only [walk, List.mem_append, ih hrest, Dir.read_file hfresh]
    constructor
    · rintro (h | ⟨hstart, more, c, hread, heq⟩)
      · split at h
        · rw [List.mem_singleton] at h
          subst h
          exact ⟨‹_›, [name], contents, .inl ⟨rfl, rfl⟩, rfl⟩
        · cases h
      · exact ⟨hstart, more, c, .inr hread, heq⟩
    · rintro ⟨hstart, more, c, ⟨rfl, rfl⟩ | hread, rfl⟩
      · exact .inl (by rw [if_pos hstart]; exact List.mem_singleton.mpr rfl)
      · exact .inr ⟨hstart, more, c, hread, rfl⟩
  | dir name sub rest ihsub ih =>
    obtain ⟨hname, hfresh, hsub, hrest⟩ := hproper
    simp only [walk, List.mem_append, ih hrest, Dir.read_dir hfresh]
    constructor
    · rintro (h | ⟨hstart, more, c, hread, heq⟩)
      · split at h
        · obtain ⟨hstart, more, c, hread, rfl⟩ := (ihsub hsub _).mp h
          refine ⟨hstart, name :: more, c, .inl ⟨more, rfl, hread⟩, ?_⟩
          rw [List.append_assoc, List.singleton_append]
        · cases h
      · exact ⟨hstart, more, c, .inr hread, heq⟩
    · rintro ⟨hstart, more, c, ⟨more, rfl, hread⟩ | hread, rfl⟩
      · -- Two prefixes of one key: one of them is a prefix of the other.
        have hbelow : keyFor (path ++ [name]) <+: keyFor (path ++ name :: more) := by
          rw [List.append_cons path name more]
          exact keyFor_isPrefix _ _
        refine .inl ?_
        rw [if_pos (List.prefix_or_prefix_of_prefix hstart hbelow), ihsub hsub]
        refine ⟨hstart, more, c, hread, ?_⟩
        rw [List.append_assoc, List.singleton_append]
      · exact .inr ⟨hstart, more, c, hread, rfl⟩

/-- The keys below one directory tell the name that follows. -/
theorem keyFor_notMem_walk {rest : Dir} (hrest : rest.Proper) (hpath : ProperPath path)
    {name : Text} (hname : ProperName name) (hfresh : name ∉ rest.names) {more : List Text}
    (hmore : ProperPath more) :
    keyFor (path ++ name :: more) ∉ (walk start path rest).map ObjectMeta.key := by
  intro hmem
  obtain ⟨object, hobject, hkey⟩ := List.mem_map.mp hmem
  obtain ⟨_, other, c, hread, rfl⟩ := (walk_spec hrest path object).mp hobject
  have hother := Dir.properPath_of_read hrest hread
  obtain ⟨first, hfirst, tail, rfl⟩ := Dir.exists_of_read hread
  have heq : path ++ first :: tail = path ++ name :: more :=
    keyFor_inj (List.forall_mem_append.mpr ⟨hpath, hother⟩)
      (List.forall_mem_append.mpr ⟨hpath, List.forall_mem_cons.mpr ⟨hname, hmore⟩⟩)
      (by simp) (by simp) hkey
  rw [List.append_cancel_left_eq, List.cons.injEq] at heq
  exact hfresh (heq.1 ▸ hfirst)

theorem walk_nodup (hproper : d.Proper) (hpath : ProperPath path) :
    ((walk start path d).map ObjectMeta.key).Nodup := by
  induction d generalizing path with
  | nil => exact List.nodup_nil
  | file name contents rest ih =>
    obtain ⟨hname, hfresh, hrest⟩ := hproper
    rw [walk, List.map_append]
    refine List.Nodup.append ?_ (ih hrest hpath) ?_
    · split <;> simp
    · intro key hkey hmem
      split at hkey
      · rw [List.map_singleton, List.mem_singleton] at hkey
        subst hkey
        exact keyFor_notMem_walk hrest hpath hname hfresh (List.forall_mem_nil _) hmem
      · cases hkey
  | dir name sub rest ihsub ih =>
    obtain ⟨hname, hfresh, hsub, hrest⟩ := hproper
    have hbelow : ProperPath (path ++ [name]) :=
      List.forall_mem_append.mpr ⟨hpath, List.forall_mem_singleton.mpr hname⟩
    rw [walk, List.map_append]
    refine List.Nodup.append ?_ (ih hrest hpath) ?_
    · split
      · exact ihsub hsub hbelow
      · exact List.nodup_nil
    · intro key hkey hmem
      split at hkey
      · obtain ⟨object, hobject, rfl⟩ := List.mem_map.mp hkey
        obtain ⟨_, more, c, hread, rfl⟩ := (walk_spec hsub _ object).mp hobject
        rw [← List.append_cons] at hmem
        exact keyFor_notMem_walk hrest hpath hname hfresh
          (Dir.properPath_of_read hsub hread) hmem
      · cases hkey

/-! ### Listing -/

variable (fs : LocalFs)

/-- There is a file with this key and these contents. -/
def Holds (key : Text) (contents : Bytes) : Prop :=
  ∃ root ∈ fs.root, ∃ path, root.read path = .ok contents ∧ keyFor path = key

variable {fs}

theorem Holds.parts (h : fs.Holds key contents) :
    ∃ root ∈ fs.root, root.read (key.splitOn '/') = .ok contents ∧
      ProperPath (key.splitOn '/') := by
  obtain ⟨root, hroot, path, hread, rfl⟩ := h
  have hpath := Dir.properPath_of_read (fs.proper root hroot) hread
  obtain ⟨name, _, more, rfl⟩ := Dir.exists_of_read hread
  rw [splitOn_keyFor hpath (List.cons_ne_nil _ _)]
  exact ⟨root, hroot, hread, hpath⟩

theorem mem_walk_root {root : Dir} (hroot : fs.root = some root) (object : ObjectMeta) :
    object ∈ walk start [] root ↔ start <+: object.key ∧
      ∃ contents, fs.Holds object.key contents ∧ object.size = contents.length := by
  rw [walk_spec (fs.proper root hroot)]
  constructor
  · rintro ⟨hstart, path, contents, hread, rfl⟩
    exact ⟨hstart, contents, ⟨root, hroot, path, hread, rfl⟩, rfl⟩
  · rintro ⟨hstart, contents, ⟨other, hother, path, hread, hkey⟩, hsize⟩
    obtain rfl : root = other := Option.mem_unique hroot hother
    exact ⟨hstart, path, contents, hread, by rw [List.nil_append, hkey, ← hsize]⟩

theorem list_exact {ready : Bool} (haccepted : fs.validateListPrefix start = .ok ready) :
    ∃ objects, fs.list start = .ok objects ∧
      (∀ object, object ∈ objects ↔ start <+: object.key ∧
        ∃ contents, fs.Holds object.key contents ∧ object.size = contents.length) ∧
      objects.Pairwise fun a b => a.key < b.key := by
  cases hroot : fs.root with
  | none =>
    obtain rfl : false = ready := by simpa [validateListPrefix, hroot] using haccepted
    refine ⟨[], by rw [list, haccepted]; rfl, fun object => ?_, .nil⟩
    simp [Holds, hroot]
  | some root =>
    obtain rfl : true = ready := by
      rw [validateListPrefix, hroot, bind_eq_ok] at haccepted
      obtain ⟨_, _, hready⟩ := haccepted
      exact pure_eq_ok.mp hready
    refine ⟨_, by rw [list, haccepted, hroot]; rfl, fun object => ?_, ?_⟩
    · rw [List.mem_mergeSort]
      exact mem_walk_root hroot object
    · exact pairwise_lt_mergeSort
        (walk_nodup (fs.proper root hroot) (List.forall_mem_nil _))

/-! ### Keys that are read back -/

theorem filterMap_parseComponent {parts : List Text} (h : ProperPath parts) :
    parts.filterMap parseComponent = parts.map .normal := by
  rw [← List.filterMap_eq_map]
  refine List.filterMap_congr fun part hpart => ?_
  obtain ⟨hne, _, hdot, hdots⟩ := h part hpart
  unfold parseComponent
  split <;> simp_all

theorem components_of_proper (h : ProperPath (key.splitOn '/')) :
    components key = (key.splitOn '/').map .normal := by
  rw [components, filterMap_parseComponent h]
  split
  · rename_i hsplit
    exact absurd rfl (h [] (by rw [hsplit]; exact List.mem_cons_self)).ne_nil
  · rename_i hsplit
    exact absurd rfl (h ['.'] (by rw [hsplit]; exact List.mem_cons_self)).ne_dot
  · exact List.nil_append _

theorem validateComponents_of_read (h : d.read path = .ok contents) :
    validateComponents (.dir d) (path.map .normal) = .ok () := by
  induction path generalizing d with
  | nil => cases h
  | cons name more ih =>
    rw [List.map_cons, validateComponents]
    rw [Dir.read] at h
    cases hchild : d.child name with
    | none => rfl
    | some found =>
      rw [hchild] at h
      cases found with
      | dir sub => exact ih h
      | file c =>
        by_cases hmore : more = []
        · rw [hmore]
          rfl
        · cases (if_neg hmore).symm.trans h

theorem badPart_of_proper {part : Text} (h : ProperName part) : badPart part = false := by
  simp [badPart, h.ne_nil, h.ne_dot, h.ne_dots]

theorem any_badPart_of_proper {parts : List Text} (h : ProperPath parts) :
    ¬ parts.any badPart = true := by
  rw [List.any_eq_true]
  rintro ⟨part, hpart, hbad⟩
  rw [badPart_of_proper (h part hpart)] at hbad
  cases hbad

theorem ne_nil_of_proper (h : ProperPath (key.splitOn '/')) : key ≠ [] := by
  rintro rfl
  exact (h [] (by simp)).ne_nil rfl

theorem validateKey_of_proper (h : ProperPath (key.splitOn '/')) (hslash : '\\' ∉ key) :
    validateKey key = .ok () := by
  simp only [validateKey, bind_eq_ok, ensure_eq_ok]
  refine ⟨(), ne_nil_of_proper h, (), hslash, (), any_badPart_of_proper h, ?_⟩
  rw [components_of_proper h, List.all_map]
  exact List.all_eq_true.mpr fun _ _ => rfl

/-- A key without a backslash is read exactly if there is a file with it. -/
theorem get_eq_ok_iff (hslash : '\\' ∉ key) :
    fs.get key = .ok contents ↔ fs.Holds key contents := by
  constructor
  · intro h
    rw [get, bind_eq_ok] at h
    obtain ⟨_, _, h⟩ := h
    cases hroot : fs.root with
    | none =>
      rw [hroot] at h
      cases h
    | some root =>
      rw [hroot] at h
      obtain ⟨_, _, hread⟩ := bind_eq_ok.mp h
      exact ⟨root, hroot, _, hread, keyFor_splitOn key⟩
  · intro h
    obtain ⟨root, hroot, hread, hproper⟩ := h.parts
    have hcomponents := components_of_proper hproper
    rw [get, validateKey_of_proper hproper hslash, ok_bind, Option.mem_def.mp hroot]
    change (validateComponents _ _ >>= fun _ => _) = _
    rw [hcomponents, validateComponents_of_read hread, ok_bind, hread]

end LocalFs

variable {key : Text}

theorem validateKeyComponents_of_proper (h : ProperPath (key.splitOn '/')) (hslash : '\\' ∉ key) :
    validateKeyComponents key false = .ok () := by
  simp only [validateKeyComponents, bind_eq_ok, ensure_eq_ok]
  refine ⟨(), ?_, LocalFs.any_badPart_of_proper h⟩
  rintro (⟨_, hnil⟩ | ⟨rest, rfl⟩ | hmem)
  · exact LocalFs.ne_nil_of_proper h hnil
  · refine (h [] ?_).ne_nil rfl
    rw [show ['/'] ++ rest = [] ++ '/' :: rest from rfl, List.splitOn_append_cons_self]
    simp
  · exact hslash hmem

theorem DatasetKey.exists_new (h : validateKeyComponents key false = .ok ()) :
    ∃ made, DatasetKey.new key = .ok made ∧ made.text = key := by
  refine ⟨⟨key, h⟩, ?_, rfl⟩
  unfold DatasetKey.new
  split
  · rfl
  · simp_all

namespace StorageOwner

variable {owner : StorageOwner}

variable {suffix key : Text}

theorem prefixed_of_ne_nil (hne : suffix ≠ []) :
    owner.prefixed suffix =
      if owner.owned.text = [] then suffix else owner.owned.text ++ '/' :: suffix := by
  simp [prefixed, hne]

theorem prefixed_append {more : Text} (hne : suffix ≠ []) :
    owner.prefixed suffix ++ more = owner.prefixed (suffix ++ more) := by
  rw [prefixed_of_ne_nil hne, prefixed_of_ne_nil (by simp [hne])]
  split <;> simp

theorem slash_notMem_prefixed (hne : key ≠ []) (hslash : '\\' ∉ key) :
    '\\' ∉ owner.prefixed key := by
  rw [prefixed_of_ne_nil hne]
  split
  · exact hslash
  · rename_i howned
    have hvalid := owner.owned.valid.resolve_left howned
    simp only [validateKeyComponents, bind_eq_ok, ensure_eq_ok] at hvalid
    obtain ⟨_, hvalid, _⟩ := hvalid
    have hfree : '\\' ∉ owner.owned.text := fun h => hvalid (.inr (.inr h))
    simp [hfree, hslash]

theorem properPath_of_prefixed (hne : key ≠ [])
    (h : ProperPath ((owner.prefixed key).splitOn '/')) : ProperPath (key.splitOn '/') := by
  rw [prefixed_of_ne_nil hne] at h
  split at h
  · exact h
  · rw [List.splitOn_append_cons_self] at h
    exact (List.forall_mem_append.mp h).2

/-- Stripping takes away what prefixing puts before a key. -/
theorem stripped_prefixed (hne : key ≠ []) (size : ℕ) :
    owner.stripped ⟨owner.prefixed key, size⟩ = .ok ⟨key, size⟩ := by
  have hkey : (if owner.owned.text = [] then some (owner.prefixed key)
      else ((owner.prefixed key).dropPrefix? owner.owned.text).bind
        fun key => key.dropPrefix? ['/']) = some key := by
    rw [prefixed_of_ne_nil hne]
    split
    · rfl
    · have hdrop : (owner.owned.text ++ '/' :: key).dropPrefix? owner.owned.text =
          some ('/' :: key) := List.dropPrefix?_append_of_beq _ (by simp)
      have hslash : (['/'] ++ key).dropPrefix? ['/'] = some key :=
        List.dropPrefix?_append_of_beq key (by simp)
      rw [hdrop]
      exact hslash
  simp only [stripped, hkey]
  rfl

/-- An object under the key that the backend knows it by. -/
def addressed (owner : StorageOwner) (object : ObjectMeta) : ObjectMeta :=
  ⟨owner.prefixed object.key, object.size⟩

theorem list_exact (hne : suffix ≠ []) (hsuffix : validateKeyComponents suffix true = .ok ())
    {ready : Bool}
    (haccepted : owner.backend.validateListPrefix (owner.prefixed suffix) = .ok ready) :
    ∃ objects, owner.list suffix = .ok objects ∧
      owner.backend.list (owner.prefixed suffix) = .ok (objects.map owner.addressed) ∧
      ∀ object ∈ objects, suffix <+: object.key := by
  obtain ⟨found, hfound, hmem, _⟩ := LocalFs.list_exact haccepted
  have hstrip : ∀ object ∈ found, ∃ inner, owner.stripped object = .ok inner ∧
      (suffix <+: inner.key ∧ object = owner.addressed inner) := by
    rintro ⟨key, size⟩ hobject
    obtain ⟨⟨more, rfl⟩, _⟩ := (hmem _).mp hobject
    refine ⟨⟨suffix ++ more, size⟩, ?_, List.prefix_append _ _, ?_⟩
    · rw [prefixed_append hne]
      exact stripped_prefixed (by simp [hne]) size
    · rw [addressed, prefixed_append hne]
  obtain ⟨objects, hobjects, hall⟩ := mapM_ok_of_exists hstrip
  obtain ⟨hinner, hall⟩ := (List.forall₂_and_left _ _).mp hall.flip
  refine ⟨objects, ?_, ?_, hinner⟩
  · rw [list, if_pos hne, hsuffix]
    change (owner.backend.list _ >>= fun _ => _) = _
    rw [hfound, ok_bind, hobjects]
  · have heq : found = objects.map owner.addressed := by
      rw [← List.forall₂_eq_eq_eq, List.forall₂_map_right_iff]
      exact hall.flip
    rw [hfound, heq]

/-- A listed key without a backslash is read back as the object it was listed for. -/
theorem get_listed (hne : key ≠ []) (hslash : '\\' ∉ key) {contents : Bytes}
    (hholds : owner.backend.Holds (owner.prefixed key) contents) :
    ∃ made, DatasetKey.new key = .ok made ∧
      ∀ c, owner.get made = .ok c ↔ owner.backend.Holds (owner.prefixed key) c := by
  obtain ⟨_, _, _, hproper⟩ := hholds.parts
  obtain ⟨made, hmade, rfl⟩ := DatasetKey.exists_new
    (validateKeyComponents_of_proper (properPath_of_prefixed hne hproper) hslash)
  exact ⟨made, hmade, fun c => LocalFs.get_eq_ok_iff (slash_notMem_prefixed hne hslash)⟩

end StorageOwner

/-- A listing has the files with a key as asked for and no others, in the order of their
keys; a dataset's listing has them without the namespace, and each of its keys without a
backslash is read as the object it was listed for. -/
theorem listing_exact (owner : StorageOwner) :
    (∀ start ready, owner.backend.validateListPrefix start = .ok ready →
      ∃ objects, owner.backend.list start = .ok objects ∧
        (∀ object, object ∈ objects ↔ start <+: object.key ∧
          ∃ contents, owner.backend.Holds object.key contents ∧
            object.size = contents.length) ∧
        objects.Pairwise fun a b => a.key < b.key) ∧
    ∀ suffix ready, suffix ≠ [] → validateKeyComponents suffix true = .ok () →
      owner.backend.validateListPrefix (owner.prefixed suffix) = .ok ready →
      ∃ objects, owner.list suffix = .ok objects ∧
        owner.backend.list (owner.prefixed suffix) = .ok (objects.map owner.addressed) ∧
        ∀ object ∈ objects, '\\' ∉ object.key →
          ∃ key, DatasetKey.new object.key = .ok key ∧
            (∃ contents, owner.get key = .ok contents ∧ object.size = contents.length) ∧
            ∀ contents, owner.get key = .ok contents ↔
              owner.backend.Holds (owner.prefixed object.key) contents := by
  refine ⟨fun start ready h => LocalFs.list_exact h, ?_⟩
  intro suffix ready hne hsuffix haccepted
  obtain ⟨objects, hlist, hbackend, hinner⟩ := StorageOwner.list_exact hne hsuffix haccepted
  refine ⟨objects, hlist, hbackend, fun object hobject hslash => ?_⟩
  have hkey : object.key ≠ [] := by
    intro hnil
    exact hne (List.prefix_nil.mp (hnil ▸ hinner object hobject))
  obtain ⟨found, hfound, hmem, _⟩ := LocalFs.list_exact haccepted
  obtain rfl : objects.map owner.addressed = found := Except.ok.inj (hbackend.symm.trans hfound)
  obtain ⟨_, contents, hholds, hsize⟩ := (hmem _).mp (List.mem_map_of_mem hobject)
  obtain ⟨key, hnew, hget⟩ := StorageOwner.get_listed hkey hslash hholds
  exact ⟨key, hnew, ⟨contents, (hget contents).mpr hholds, hsize⟩, hget⟩

/-- The namespace `d` with the files `a/x` and `ab`, beside a file outside it. -/
def sampleOwner : StorageOwner where
  backend :=
    { root := some (.dir ['d'] (.file ['a', 'b'] [7, 8] (.dir ['a'] (.file ['x'] [9] .nil) .nil))
        (.file ['d', 'a'] [1] .nil))
      proper := by
        rintro _ ⟨⟩
        refine ⟨?_, ?_, ⟨?_, ?_, ⟨?_, ?_, ⟨?_, ?_, trivial⟩, trivial⟩⟩, ?_, ?_, trivial⟩ <;>
          first | decide | constructor <;> decide }
  owned := ⟨['d'], .inr rfl⟩

theorem listing_exact_sample :
    sampleOwner.backend.validateListPrefix (sampleOwner.prefixed ['a']) = .ok true ∧
      (∃ objects, sampleOwner.backend.list [] = .ok objects ∧
        ⟨['d', '/', 'a', '/', 'x'], 1⟩ ∈ objects ∧
        objects.Pairwise fun a b => a.key < b.key) ∧
      ∃ objects, sampleOwner.list ['a'] = .ok objects ∧ ⟨['a', 'b'], 2⟩ ∈ objects ∧
        sampleOwner.backend.list ['d', '/', 'a'] = .ok (objects.map sampleOwner.addressed) := by
  have hready : sampleOwner.backend.validateListPrefix (sampleOwner.prefixed ['a']) =
      .ok true := rfl
  obtain ⟨hbackend, howner⟩ := listing_exact sampleOwner
  refine ⟨hready, ?_, ?_⟩
  · obtain ⟨objects, hlist, hmem, hsorted⟩ := hbackend [] true rfl
    exact ⟨objects, hlist, (hmem _).mpr ⟨List.nil_prefix, [9],
      ⟨_, rfl, [['d'], ['a'], ['x']], rfl, rfl⟩, rfl⟩, hsorted⟩
  · obtain ⟨objects, hlist, heq, _⟩ := howner ['a'] true (by decide) rfl hready
    obtain ⟨found, hfound, hmem, _⟩ := hbackend _ true hready
    obtain rfl : objects.map sampleOwner.addressed = found :=
      Except.ok.inj (heq.symm.trans hfound)
    obtain ⟨object, hobject, haddressed⟩ := List.mem_map.mp ((hmem ⟨['d', '/', 'a', 'b'], 2⟩).mpr
      ⟨⟨['b'], rfl⟩, [7, 8], ⟨_, rfl, [['d'], ['a', 'b']], rfl, rfl⟩, rfl⟩)
    have hinner : object = ⟨['a', 'b'], 2⟩ := by
      obtain ⟨key, size⟩ := object
      cases key <;> simp_all [StorageOwner.addressed, StorageOwner.prefixed, sampleOwner]
    exact ⟨objects, hlist, hinner ▸ hobject, heq⟩

/-- A directory with one file, whose name has a backslash. -/
def backslashOwner : StorageOwner where
  backend :=
    { root := some (.file ['a', '\\', 'b'] [1] .nil)
      proper := by
        rintro _ ⟨⟩
        refine ⟨?_, ?_, trivial⟩ <;> first | decide | constructor <;> decide }
  owned := ⟨[], .inl rfl⟩

/-- The file is listed, but its key is none that the owner or the backend takes. -/
theorem backslash_listed_unreadable :
    backslashOwner.backend.Holds ['a', '\\', 'b'] [1] ∧
      backslashOwner.list ['a'] = .ok [⟨['a', '\\', 'b'], 1⟩] ∧
      DatasetKey.new ['a', '\\', 'b'] = .error (.invalidInput "invalid storage key") ∧
      backslashOwner.backend.get (backslashOwner.prefixed ['a', '\\', 'b']) =
        .error (.invalidInput "key must use '/' separators") := by
  have hlist : backslashOwner.backend.list ['a'] = .ok [⟨['a', '\\', 'b'], 1⟩] :=
    congrArg Except.ok (List.mergeSort_singleton _)
  refine ⟨⟨_, rfl, [['a', '\\', 'b']], rfl, rfl⟩, ?_, rfl, rfl⟩
  change (backslashOwner.backend.list ['a'] >>= fun objects =>
    objects.mapM backslashOwner.stripped) = _
  rw [hlist]
  rfl

end StrataDB.Storage
