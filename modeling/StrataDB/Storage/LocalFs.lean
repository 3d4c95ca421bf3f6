import Mathlib.Data.Char
import Mathlib.Data.List.Infix
import Mathlib.Data.List.Lex
import StrataDB.Lib.Bytes
import StrataDB.Lib.List
import StrataDB.Lib.Text

/-! Objects in a local directory tree (`storage/src/backend/local.rs`) and in a
dataset's namespace within it (`storage/src/backend/owner.rs`). Listing walks the tree
and leaves out the directories in which no key can start as asked for; what it returns
is what a look at every file would.

There are no symbolic links here, and a path that a system call refuses for its length
or for a NUL in it is taken as one without a file. -/

namespace StrataDB.Storage

open Lib

/-- The errors of the file system and of the checks before it is asked. -/
inductive FsError
  | invalidInput (message : String)
  | invalidData (message : String)
  | notFound
  | notADirectory
  | isADirectory
  deriving DecidableEq

/-! ### Directory trees -/

/-- The contents of a directory, one entry after the other as `read_dir` gives them. -/
inductive Dir
  | nil
  | file (name : Text) (contents : Bytes) (rest : Dir)
  | dir (name : Text) (sub rest : Dir)

/-- What stands under a name. -/
inductive Found
  | file (contents : Bytes)
  | dir (sub : Dir)

namespace Dir

def names : Dir → List Text
  | nil => []
  | file name _ rest => name :: rest.names
  | dir name _ rest => name :: rest.names

def child (wanted : Text) : Dir → Option Found
  | nil => none
  | file name contents rest => if name = wanted then some (.file contents) else rest.child wanted
  | dir name sub rest => if name = wanted then some (.dir sub) else rest.child wanted

/-- The contents of the file at a path (`fs::read`). -/
def read : Dir → List Text → Except FsError Bytes
  | _, [] => .error .isADirectory
  | d, name :: path =>
    match d.child name with
    | none => .error .notFound
    | some (.file contents) => if path = [] then .ok contents else .error .notADirectory
    | some (.dir sub) => sub.read path

end Dir

/-- A name of a directory entry. -/
structure ProperName (name : Text) : Prop where
  ne_nil : name ≠ []
  slash : '/' ∉ name
  ne_dot : name ≠ ['.']
  ne_dots : name ≠ ['.', '.']

/-- Each name stands once in its directory. -/
def Dir.Proper : Dir → Prop
  | nil => True
  | file name _ rest => ProperName name ∧ name ∉ rest.names ∧ rest.Proper
  | dir name sub rest => ProperName name ∧ name ∉ rest.names ∧ sub.Proper ∧ rest.Proper

/-- `LocalFs`; the root directory may be missing. -/
structure LocalFs where
  root : Option Dir
  proper : ∀ d ∈ root, d.Proper

/-! ### Paths and keys -/

/-- `std::path::Component`. -/
inductive Component
  | rootDir
  | curDir
  | parentDir
  | normal (name : Text)
  deriving DecidableEq

def Component.isNormal : Component → Bool
  | normal _ => true
  | _ => false

/-- `parse_single_component` of the path iterator. -/
def parseComponent : Text → Option Component
  | [] => none
  | ['.'] => none
  | ['.', '.'] => some .parentDir
  | name => some (.normal name)

/-- `Path::components`: empty parts and dots are left out, but for a leading one. -/
def components (path : Text) : List Component :=
  (match path.splitOn '/' with
    | [] :: _ :: _ => [.rootDir]
    | ['.'] :: _ => [.curDir]
    | _ => []) ++
  (path.splitOn '/').filterMap parseComponent

/-- `key_for`. -/
def keyFor (path : List Text) : Text := ['/'].intercalate path

/-- A part of a key that names no entry. -/
def badPart (part : Text) : Bool := part.isEmpty || part == ['.'] || part == ['.', '.']

/-- `ObjectMeta`. -/
structure ObjectMeta where
  key : Text
  size : ℕ
  deriving DecidableEq

namespace LocalFs

/-- `validate_key`. -/
def validateKey (key : Text) : Except FsError Unit := do
  ensure (key ≠ []) (.invalidInput "key must not be empty")
  ensure ('\\' ∉ key) (.invalidInput "key must use '/' separators")
  ensure (¬ (key.splitOn '/').any badPart = true)
    (.invalidInput "key must not contain empty, '.', or '..' segments")
  ensure ((components key).all Component.isNormal = true)
    (.invalidInput "key must be relative with no '.'/'..' components")

/-- The loop of `validate_list_prefix` and of `validate_existing_key_path`: follow the
components as far as there are entries for them. -/
def validateComponents : Found → List Component → Except FsError Unit
  | _, [] => .ok ()
  | .file _, .normal _ :: _ => .error .notADirectory
  | .dir d, .normal name :: rest =>
    match d.child name with
    | none => .ok ()
    | some found => validateComponents found rest
  | _, _ :: _ =>
    .error (.invalidInput "list prefix must not contain path navigation components")

/-- `walk`, in the directory at a path. -/
def walk (start : Text) : List Text → Dir → List ObjectMeta
  | _, .nil => []
  | path, .file name contents rest =>
    let key := keyFor (path ++ [name])
    (if start <+: key then [⟨key, contents.length⟩] else []) ++ walk start path rest
  | path, .dir name sub rest =>
    let subKey := keyFor (path ++ [name])
    (if start <+: subKey ∨ subKey <+: start then walk start (path ++ [name]) sub else []) ++
      walk start path rest

variable (fs : LocalFs)

/-- `validate_list_prefix`; false if there is no root. -/
def validateListPrefix (start : Text) : Except FsError Bool :=
  match fs.root with
  | none => .ok false
  | some root => do
    validateComponents (.dir root) (components start)
    return true

/-- `list`. -/
def list (start : Text) : Except FsError (List ObjectMeta) := do
  if ← fs.validateListPrefix start then
    let results := fs.root.elim [] (walk start [])
    return results.mergeSort fun a b => decide (a.key ≤ b.key)
  else return []

/-- `get`. -/
def get (key : Text) : Except FsError Bytes := do
  validateKey key
  match fs.root with
  | none => .error .notFound
  | some root => do
    validateComponents (.dir root) (components key)
    root.read (key.splitOn '/')

end LocalFs

/-! ### A dataset's namespace -/

/-- `validate_key_components`. -/
def validateKeyComponents (key : Text) (allowEmpty : Bool) : Except FsError Unit := do
  ensure (¬ ((allowEmpty = false ∧ key = []) ∨ ['/'] <+: key ∨ '\\' ∈ key))
    (.invalidInput "invalid storage key")
  ensure (¬ (key.splitOn '/').any badPart = true) (.invalidInput "invalid storage key component")

/-- `DatasetPrefix`. -/
structure DatasetPrefix where
  text : Text
  valid : text = [] ∨ validateKeyComponents text true = .ok ()

/-- `DatasetKey`. -/
structure DatasetKey where
  text : Text
  valid : validateKeyComponents text false = .ok ()

def DatasetKey.new (key : Text) : Except FsError DatasetKey :=
  match h : validateKeyComponents key false with
  | .ok () => .ok ⟨key, h⟩
  | .error e => .error e

/-- `StorageOwner` over a local backend. -/
structure StorageOwner where
  backend : LocalFs
  owned : DatasetPrefix

namespace StorageOwner

variable (owner : StorageOwner)

def prefixed (suffix : Text) : Text :=
  if owner.owned.text = [] then suffix
  else if suffix = [] then owner.owned.text
  else owner.owned.text ++ '/' :: suffix

def get (key : DatasetKey) : Except FsError Bytes := owner.backend.get (owner.prefixed key.text)

/-- The key of an object without the namespace. -/
def stripped (object : ObjectMeta) : Except FsError ObjectMeta := do
  let key ← Lib.orElse
    (if owner.owned.text = [] then some object.key
      else (object.key.dropPrefix? owner.owned.text).bind fun key => key.dropPrefix? ['/'])
    (.invalidData "backend returned an object outside the owner namespace")
  return ⟨key, object.size⟩

def list (suffix : Text) : Except FsError (List ObjectMeta) := do
  if suffix ≠ [] then validateKeyComponents suffix true
  let objects ← owner.backend.list (owner.prefixed suffix)
  objects.mapM owner.stripped

end StorageOwner

end StrataDB.Storage
