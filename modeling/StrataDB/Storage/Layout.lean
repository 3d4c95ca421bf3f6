import Mathlib.Order.Basic

/-! Object names and keys (`storage/src/backend/owner.rs` and the name formats
of the three writers in `txn/src/dataset.rs`). Names are kept as the numbers
they are made of; `render` writes them as the source does. -/

namespace StrataDB.Storage

/-- `{n:020}`. -/
def pad20 (n : ℕ) : String :=
  let digits := toString n
  "".pushn '0' (20 - digits.length) ++ digits

/-- An object under `data/`. Commits and compactions name files by their
attempt id, the migration by the version it publishes. -/
inductive ObjectName
  | rowFile (attempt index : ℕ)
  | segment (attempt : ℕ)
  | migratedFile (version index : ℕ)
  | migratedSegment (version index : ℕ)
  deriving DecidableEq

namespace ObjectName

def render : ObjectName → String
  | rowFile attempt index => s!"{pad20 attempt}-{index}.arrow"
  | segment attempt => s!"{pad20 attempt}.seg"
  | migratedFile version index => s!"migration-{pad20 version}-{pad20 index}.arrow"
  | migratedSegment version index => s!"migration-{pad20 version}-{pad20 index}.seg"

instance : ToString ObjectName := ⟨render⟩

/-- The attempt a name was handed out to; migrated objects carry none. -/
def attempt? : ObjectName → Option ℕ
  | rowFile attempt _ => some attempt
  | segment attempt => some attempt
  | migratedFile _ _ => none
  | migratedSegment _ _ => none

/-- The version whose migration wrote the object. -/
def migration? : ObjectName → Option ℕ
  | rowFile _ _ => none
  | segment _ => none
  | migratedFile version _ => some version
  | migratedSegment version _ => some version

end ObjectName

/-- A key of the dataset's namespace. -/
inductive Key
  | manifest (version : ℕ)
  | data (name : ObjectName)
  | reservation (last : ℕ)
  deriving DecidableEq

def Key.render : Key → String
  | .manifest version => s!"_versions/{pad20 version}.manifest"
  | .data name => s!"data/{name.render}"
  | .reservation last => s!"_meta/row-id-high-water/{pad20 last}.reservation"

instance : ToString Key := ⟨Key.render⟩

end StrataDB.Storage
