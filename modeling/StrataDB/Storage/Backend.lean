import StrataDB.Storage.Manifest

/-! The object store (`storage/src/backend/local.rs`) and the publication of a
manifest through it (`commit_manifest_with`). Objects are kept decoded, so that
reading returns what was written. A call that changes the store can fail before
its effect is visible or after it: a rename, a link or an unlink happens before
the directory sync that may still fail. -/

namespace StrataDB.Storage

open Lib Arrow Index

inductive Object
  | manifest (manifest : Manifest)
  | rows (batch : RecordBatch)
  | segment (segment : Segment)
  | reservation (last : ℕ)
  deriving DecidableEq

/-- The objects present, by key. -/
abbrev Store := AList (fun _ : Key => Object)

/-- When a storage call fails, if it does. -/
inductive Fault
  /-- The call succeeds. -/
  | none
  /-- The call fails and the store is as before. -/
  | early
  /-- The effect is visible, but its durability is not confirmed. -/
  | late
  deriving DecidableEq

namespace Store

def get (s : Store) (key : Key) : Option Object := s.lookup key

/-- `put` replaces what the key held. -/
def put (s : Store) (key : Key) (object : Object) : Fault → Store × Except StorageError Unit
  | .none => (s.insert key object, .ok ())
  | .early => (s, .error (.io "put failed"))
  | .late => (s.insert key object, .error (.io "directory sync failed"))

/-- `put_if_absent` links a complete object under a name that must be free. -/
def putIfAbsent (s : Store) (key : Key) (object : Object) :
    Fault → Store × Except StorageError Unit
  | .early => (s, .error (.io "link failed"))
  | fault =>
    if (s.get key).isSome then (s, .error (.alreadyExists key))
    else match fault with
      | .late => (s.insert key object, .error (.io "directory sync failed"))
      | _ => (s.insert key object, .ok ())

/-- `delete` unlinks an object that must be there. -/
def delete (s : Store) (key : Key) : Fault → Store × Except StorageError Unit
  | .early => (s, .error (.io "unlink failed"))
  | fault =>
    if (s.get key).isNone then (s, .error (.notFound key))
    else match fault with
      | .late => (s.erase key, .error (.io "directory sync failed"))
      | _ => (s.erase key, .ok ())

/-- The versions listed under `_versions/`. -/
def versions (s : Store) : List ℕ :=
  s.keys.filterMap fun
    | .manifest version => some version
    | _ => none

/-- The names listed under `data/`. -/
def dataObjects (s : Store) : List ObjectName :=
  s.keys.filterMap fun
    | .data name => some name
    | _ => none

/-- The ends of the reservation records. -/
def reservations (s : Store) : List ℕ :=
  s.keys.filterMap fun
    | .reservation last => some last
    | _ => none

/-- The manifest stored under a version. -/
def manifestAt (s : Store) (version : ℕ) : Option Manifest :=
  match s.get (.manifest version) with
  | some (.manifest m) => some m
  | _ => none

theorem mem_versions {s : Store} {version : ℕ} :
    version ∈ s.versions ↔ (s.get (.manifest version)).isSome := by
  rw [get, AList.lookup_isSome, AList.mem_keys, versions, List.mem_filterMap]
  constructor
  · rintro ⟨key, hkey, h⟩
    cases key <;> simp_all
  · intro h
    exact ⟨_, h, rfl⟩

theorem mem_dataObjects {s : Store} {name : ObjectName} :
    name ∈ s.dataObjects ↔ (s.get (.data name)).isSome := by
  rw [get, AList.lookup_isSome, AList.mem_keys, dataObjects, List.mem_filterMap]
  constructor
  · rintro ⟨key, hkey, h⟩
    cases key <;> simp_all
  · intro h
    exact ⟨_, h, rfl⟩

theorem mem_reservations {s : Store} {last : ℕ} :
    last ∈ s.reservations ↔ (s.get (.reservation last)).isSome := by
  rw [get, AList.lookup_isSome, AList.mem_keys, reservations, List.mem_filterMap]
  constructor
  · rintro ⟨key, hkey, h⟩
    cases key <;> simp_all
  · intro h
    exact ⟨_, h, rfl⟩

variable (s : Store) (key : Key) (object : Object)

@[simp] theorem get_insert_self :
    get (s.insert key object) key = some object := AList.lookup_insert s

theorem get_insert_of_ne {key key' : Key} (h : key' ≠ key) :
    get (s.insert key object) key' = s.get key' := AList.lookup_insert_ne h

variable (key' : Key)

theorem get_insert (object : Object) :
    get (s.insert key object) key' = if key' = key then some object else s.get key' := by
  split
  · subst key'
    exact get_insert_self s key object
  · exact get_insert_of_ne s object ‹_›

theorem get_erase : get (s.erase key) key' = if key' = key then none else s.get key' := by
  split
  · subst key'
    exact AList.lookup_erase key s
  · exact AList.lookup_erase_ne ‹_›

end Store

/-- `read_manifest_at_key_with_byte_count_and_size_with`. -/
def readManifest (F : Format) (s : Store) (version : ℕ) : Except StorageError Manifest := do
  let m ← orElse (s.manifestAt version) (.notFound (.manifest version))
  decodeManifest F version m

/-- `read_current_with`: the manifest of the highest version listed. -/
def readCurrent (F : Format) (s : Store) : Except StorageError (Option Manifest) :=
  match s.versions.max? with
  | none => .ok none
  | some version => some <$> readManifest F s version

/-- `commit_manifest_with`: check the bytes as recovery would, then link them.
An error with the exact bytes readable afterwards is an indeterminate
publication. -/
def commitManifestWith (F : Format) (s : Store) (m : Manifest) (fault : Fault) :
    Store × Except StorageError Unit :=
  match decodeManifest F m.version m with
  | .error e => (s, .error e)
  | .ok _ =>
    match s.putIfAbsent m.key (.manifest m) fault with
    | (s', .ok ()) => (s', .ok ())
    | (s', .error (.alreadyExists key)) => (s', .error (.alreadyExists key))
    | (s', .error e) =>
      if s'.get m.key = some (.manifest m) then (s', .error (.publicationIndeterminate m.key))
      else (s', .error e)

end StrataDB.Storage
