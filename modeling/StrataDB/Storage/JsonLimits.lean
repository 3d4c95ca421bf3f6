import StrataDB.Lib.Bytes
import StrataDB.Lib.Except
import StrataDB.Lib.Json

/-! The limits on a manifest's JSON (`storage/src/manifest.rs`). They are checked twice:
while the text is read, by a visitor that sees every value and every key as it is written,
and on the value that was read, in which of several fields with one key the last is left.
`Within` says of a document what both are about. The visitor only accepts documents within
the limits, and the value of such a document is within them too.

What `serde_json` reads a text as is left to it. -/

namespace StrataDB.Storage

open Lib

def maxManifestJsonDepth : ℕ := 128

def maxManifestObjectFields : ℕ := 4096

def maxManifestStringBytes : ℕ := 1024 * 1024

def maxManifestArrayItems : ℕ := 1000000

def maxManifestDataFiles : ℕ := 900000

def maxManifestSegments : ℕ := 1000000

def maxManifestTombstones : ℕ := 10000000

def maxManifestSchemaIpcBytes : ℕ := 16 * 1024 * 1024

def maxManifestPreParseNodes : ℕ := 1000000

/-- The limit on arrays below a key. -/
def arrayLimit (key : String) : ℕ :=
  if key = "tombstones" then maxManifestTombstones
  else if key = "schema_ipc" then maxManifestSchemaIpcBytes
  else if key = "data_files" then maxManifestDataFiles
  else if key = "segments" then maxManifestSegments
  else maxManifestArrayItems

variable {ν : Type}

/-! ### The visitor -/

/-- `ManifestJsonBudget::visit`. -/
def visitNode (nodes : ℕ) : Except String ℕ := do
  ensure (nodes + 1 ≤ maxManifestPreParseNodes)
    s!"JSON contains more than {maxManifestPreParseNodes} values"
  return nodes + 1

mutual

/-- `ManifestJsonVisitor`: the number of values seen so far, or why it stops. -/
def visit (limit : ℕ) : Json ν → ℕ → Except String ℕ
  | .null, nodes | .bool _, nodes | .number _, nodes => visitNode nodes
  | .string s, nodes => do
    let nodes ← visitNode nodes
    ensure (s.utf8ByteSize ≤ maxManifestStringBytes)
      s!"JSON string exceeds maximum length {maxManifestStringBytes}"
    return nodes
  | .array items, nodes => do
    let nodes ← visitNode nodes
    visitSeq limit 0 items nodes
  | .object fields, nodes => do
    let nodes ← visitNode nodes
    visitMap 0 fields nodes

/-- The loop of `visit_seq`, after some items. -/
def visitSeq (limit seen : ℕ) : List (Json ν) → ℕ → Except String ℕ
  | [], nodes => .ok nodes
  | item :: rest, nodes => do
    let nodes ← visit limit item nodes
    ensure (seen + 1 ≤ limit) s!"JSON array contains more than {limit} items"
    visitSeq limit (seen + 1) rest nodes

/-- The loop of `visit_map`, after some fields. -/
def visitMap (seen : ℕ) : List (String × Json ν) → ℕ → Except String ℕ
  | [], nodes => .ok nodes
  | (key, item) :: rest, nodes => do
    ensure (seen + 1 ≤ maxManifestObjectFields)
      s!"JSON object contains more than {maxManifestObjectFields} fields"
    ensure (key.utf8ByteSize ≤ maxManifestStringBytes)
      s!"JSON object key exceeds maximum length {maxManifestStringBytes}"
    let nodes ← visit (arrayLimit key) item nodes
    visitMap (seen + 1) rest nodes

end

/-- `serde_json`: the document that a text is, if it is one. -/
structure SerdeJson (ν : Type) where
  read : Bytes → Except String (Json ν)

/-- `preflight_manifest_json`. -/
def preflightManifestJson (S : SerdeJson ν) (bytes : Bytes) : Except String Unit := do
  let document ← S.read bytes
  let _ ← visit maxManifestArrayItems document 0
  return ()

/-- `serde_json::from_slice` into a `Value`. -/
def fromSlice (S : SerdeJson ν) (bytes : Bytes) : Except String (Json ν) := do
  let document ← S.read bytes
  return document.value

/-! ### The checks of a value -/

/-- Why a value is refused. -/
inductive LimitError
  | depth
  | arrayItems (found limit : ℕ)
  | objectFields (found : ℕ)
  | keyLength
  | stringLength
  | payload
  | collection (field : String) (found limit : ℕ)
  | schemaIpc (found : ℕ)
  deriving DecidableEq

/-- The details of `manifest_limit_error`. -/
def LimitError.detail : LimitError → String
  | depth => s!"JSON nesting exceeds maximum depth {maxManifestJsonDepth}"
  | arrayItems found limit => s!"JSON array contains {found} items; maximum is {limit}"
  | objectFields found =>
    s!"JSON object contains {found} fields; maximum is {maxManifestObjectFields}"
  | keyLength => s!"JSON object key exceeds maximum length {maxManifestStringBytes}"
  | stringLength => s!"JSON string exceeds maximum length {maxManifestStringBytes}"
  | payload => "manifest envelope payload is not an object"
  | collection field found limit =>
    s!"manifest field '{field}' contains {found} items; maximum is {limit}"
  | schemaIpc found =>
    s!"schema_ipc contains {found} bytes; maximum is {maxManifestSchemaIpcBytes}"

mutual

/-- `validate_json_limits`. -/
def validateJsonLimits (depth limit : ℕ) : Json ν → Except LimitError Unit
  | .array items => do
    ensure (depth ≤ maxManifestJsonDepth) .depth
    ensure (items.length ≤ limit) (.arrayItems items.length limit)
    validateItems (depth + 1) limit items
  | .object fields => do
    ensure (depth ≤ maxManifestJsonDepth) .depth
    ensure (fields.length ≤ maxManifestObjectFields) (.objectFields fields.length)
    validateFields (depth + 1) fields
  | .string s => do
    ensure (depth ≤ maxManifestJsonDepth) .depth
    ensure (s.utf8ByteSize ≤ maxManifestStringBytes) .stringLength
  | .null | .bool _ | .number _ => ensure (depth ≤ maxManifestJsonDepth) .depth

def validateItems (depth limit : ℕ) : List (Json ν) → Except LimitError Unit
  | [] => .ok ()
  | item :: rest => do
    validateJsonLimits depth limit item
    validateItems depth limit rest

def validateFields (depth : ℕ) : List (String × Json ν) → Except LimitError Unit
  | [] => .ok ()
  | (key, item) :: rest => do
    ensure (key.utf8ByteSize ≤ maxManifestStringBytes) .keyLength
    validateJsonLimits depth (arrayLimit key) item
    validateFields depth rest

end

/-- `Value::get` with a key. -/
def fieldOf (key : String) : Json ν → Option (Json ν)
  | .object fields => fields.lookup key
  | _ => none

/-- The length of an array under a key is bounded. -/
def ensureItems (manifest : Json ν) (field : String) (limit : ℕ) (error : ℕ → LimitError) :
    Except LimitError Unit :=
  match fieldOf field manifest with
  | some (.array items) => ensure (items.length ≤ limit) (error items.length)
  | _ => .ok ()

/-- `validate_manifest_collection_limits`. -/
def validateManifestCollectionLimits (value : Json ν) : Except LimitError Unit :=
  match fieldOf "manifest" value with
  | some (.object fields) => do
    [("data_files", maxManifestDataFiles), ("segments", maxManifestSegments),
      ("tombstones", maxManifestTombstones)].forM fun (field, limit) =>
        ensureItems (.object fields) field limit (.collection field · limit)
    ensureItems (.object fields) "schema_ipc" maxManifestSchemaIpcBytes .schemaIpc
  | _ => .error .payload

/-! ### Documents within the limits -/

/-- The lengths in a document are within the limits, its arrays within this one. -/
inductive Within : ℕ → Json ν → Prop
  | null {limit : ℕ} : Within limit .null
  | bool {limit : ℕ} (b : Bool) : Within limit (.bool b)
  | number {limit : ℕ} (n : ν) : Within limit (.number n)
  | string {limit : ℕ} {s : String} (h : s.utf8ByteSize ≤ maxManifestStringBytes) :
      Within limit (.string s)
  | array {limit : ℕ} {items : List (Json ν)} (hlen : items.length ≤ limit)
      (hitems : ∀ item ∈ items, Within limit item) : Within limit (.array items)
  | object {limit : ℕ} {fields : List (String × Json ν)}
      (hlen : fields.length ≤ maxManifestObjectFields)
      (hkeys : ∀ f ∈ fields, f.1.utf8ByteSize ≤ maxManifestStringBytes)
      (hfields : ∀ f ∈ fields, Within (arrayLimit f.1) f.2) : Within limit (.object fields)

mutual

/-- The visitor accepts nothing else. -/
theorem within_of_visit {limit nodes nodes' : ℕ} (document : Json ν)
    (h : visit limit document nodes = .ok nodes') : Within limit document := by
  match document with
  | .null => exact .null
  | .bool b => exact .bool b
  | .number n => exact .number n
  | .string s =>
    simp only [visit, bind_eq_ok, ensure_eq_ok] at h
    obtain ⟨_, -, _, hlen, -⟩ := h
    exact .string hlen
  | .array items =>
    simp only [visit, bind_eq_ok] at h
    obtain ⟨_, -, h⟩ := h
    obtain ⟨hlen, hitems⟩ := within_of_visitSeq items h
    exact .array (by simpa using hlen (Nat.zero_le _)) hitems
  | .object fields =>
    simp only [visit, bind_eq_ok] at h
    obtain ⟨_, -, h⟩ := h
    obtain ⟨hlen, hfields⟩ := within_of_visitMap fields h
    exact .object (by simpa using hlen (Nat.zero_le _)) (fun f hf => (hfields f hf).1)
      fun f hf => (hfields f hf).2

theorem within_of_visitSeq {limit seen nodes nodes' : ℕ} (items : List (Json ν))
    (h : visitSeq limit seen items nodes = .ok nodes') :
    (seen ≤ limit → seen + items.length ≤ limit) ∧ ∀ item ∈ items, Within limit item := by
  match items with
  | [] => exact ⟨fun hseen => by simpa using hseen, List.forall_mem_nil _⟩
  | item :: rest =>
    simp only [visitSeq, bind_eq_ok, ensure_eq_ok] at h
    obtain ⟨_, hitem, _, hseen, h⟩ := h
    obtain ⟨hlen, hrest⟩ := within_of_visitSeq rest h
    refine ⟨fun _ => ?_, List.forall_mem_cons.mpr ⟨within_of_visit item hitem, hrest⟩⟩
    have := hlen hseen
    simp only [List.length_cons]
    omega

theorem within_of_visitMap {seen nodes nodes' : ℕ} (fields : List (String × Json ν))
    (h : visitMap seen fields nodes = .ok nodes') :
    (seen ≤ maxManifestObjectFields → seen + fields.length ≤ maxManifestObjectFields) ∧
      ∀ f ∈ fields, f.1.utf8ByteSize ≤ maxManifestStringBytes ∧ Within (arrayLimit f.1) f.2 := by
  match fields with
  | [] => exact ⟨fun hseen => by simpa using hseen, List.forall_mem_nil _⟩
  | (key, item) :: rest =>
    simp only [visitMap, bind_eq_ok, ensure_eq_ok] at h
    obtain ⟨_, hseen, _, hkey, _, hitem, h⟩ := h
    obtain ⟨hlen, hrest⟩ := within_of_visitMap rest h
    refine ⟨fun _ => ?_,
      List.forall_mem_cons.mpr ⟨⟨hkey, within_of_visit item hitem⟩, hrest⟩⟩
    have := hlen hseen
    simp only [List.length_cons]
    omega

end

variable {limit : ℕ} {p : LimitError → Prop}

/-- The fields that are left are fields of the document. -/
theorem Within.value {document : Json ν} (h : Within limit document) :
    Within limit document.value := by
  induction h with
  | null => simpa [Json.value] using Within.null
  | bool b => simpa [Json.value] using Within.bool b
  | number n => simpa [Json.value] using Within.number n
  | string hlen => simpa [Json.value] using Within.string hlen
  | array hlen _ ih =>
    rw [Json.value_array]
    refine .array (by simpa using hlen) fun item hitem => ?_
    obtain ⟨source, hsource, rfl⟩ := List.mem_map.mp hitem
    exact ih source hsource
  | @object _ fields hlen hkeys _ ih =>
    rw [Json.value_object]
    obtain ⟨hsub, hshort⟩ := sortFields_spec (fields.map fun f => (f.1, f.2.value))
    rw [List.length_map] at hshort
    refine .object (Nat.le_trans hshort hlen) (fun f hf => ?_) fun f hf => ?_
    · obtain ⟨source, hsource, rfl⟩ := List.mem_map.mp (hsub hf)
      exact hkeys source hsource
    · obtain ⟨source, hsource, rfl⟩ := List.mem_map.mp (hsub hf)
      exact ih source hsource

theorem Within.field {value item : Json ν} {key : String} (h : Within limit value)
    (hfield : fieldOf key value = some item) : Within (arrayLimit key) item := by
  cases h with
  | object _ _ hfields =>
    obtain ⟨before, after, rfl, -⟩ := List.lookup_eq_some_iff.mp hfield
    exact hfields (key, item) (by simp)
  | _ => cases hfield

/-! ### The checks of a value within the limits -/

theorem failsWith_validateItems {depth : ℕ} {items : List (Json ν)}
    (h : ∀ item ∈ items, FailsWith p (validateJsonLimits depth limit item)) :
    FailsWith p (validateItems depth limit items) := by
  induction items with
  | nil =>
    rw [validateItems]
    exact .ok ()
  | cons item rest ih =>
    obtain ⟨hitem, hrest⟩ := List.forall_mem_cons.mp h
    rw [validateItems]
    exact .bind hitem fun _ => ih hrest

theorem failsWith_validateFields {depth : ℕ} {fields : List (String × Json ν)}
    (hkeys : ∀ f ∈ fields, f.1.utf8ByteSize ≤ maxManifestStringBytes)
    (h : ∀ f ∈ fields, FailsWith p (validateJsonLimits depth (arrayLimit f.1) f.2)) :
    FailsWith p (validateFields depth fields) := by
  induction fields with
  | nil =>
    rw [validateFields]
    exact .ok ()
  | cons field rest ih =>
    obtain ⟨key, item⟩ := field
    obtain ⟨hkey, hkeys⟩ := List.forall_mem_cons.mp hkeys
    obtain ⟨hitem, hrest⟩ := List.forall_mem_cons.mp h
    rw [validateFields, ensure_of _ hkey, ok_bind]
    exact .bind hitem fun _ => ih hkeys hrest

/-- Only the depth is left to complain about. -/
theorem Within.failsWith_depth {value : Json ν} (h : Within limit value) (depth : ℕ) :
    FailsWith (· = .depth) (validateJsonLimits depth limit value) := by
  induction h generalizing depth with
  | null | bool _ | number _ =>
    rw [validateJsonLimits]
    exact .ensure rfl
  | string hlen =>
    rw [validateJsonLimits]
    exact .bind (.ensure rfl) fun _ => ensure_of LimitError.stringLength hlen ▸ .ok ()
  | array hlen _ ih =>
    rw [validateJsonLimits]
    refine .bind (.ensure rfl) fun _ => ?_
    rw [ensure_of _ hlen, ok_bind]
    exact failsWith_validateItems fun item hitem => ih item hitem _
  | object hlen hkeys _ ih =>
    rw [validateJsonLimits]
    refine .bind (.ensure rfl) fun _ => ?_
    rw [ensure_of _ hlen, ok_bind]
    exact failsWith_validateFields hkeys fun f hf => ih f hf _

theorem Within.ensureItems {manifest : Json ν} (h : Within limit manifest) (field : String)
    (error : ℕ → LimitError) : ensureItems manifest field (arrayLimit field) error = .ok () := by
  unfold Storage.ensureItems
  split
  · rename_i items hfield
    cases h.field hfield with
    | array hlen _ => exact ensure_of _ hlen
  · rfl

/-- The limits that are checked on the value are already checked on its text: it is only
refused for its depth, or for not being an envelope. -/
theorem streaming_limits_subsume (S : SerdeJson ν) (bytes : Bytes) (value : Json ν)
    (hpreflight : preflightManifestJson S bytes = .ok ()) (hvalue : fromSlice S bytes = .ok value) :
    (∀ e, validateJsonLimits 0 maxManifestArrayItems value = .error e → e = .depth) ∧
    ∀ e, validateManifestCollectionLimits value = .error e → e = .payload := by
  simp only [preflightManifestJson, bind_eq_ok] at hpreflight
  obtain ⟨document, hread, _, hvisit, -⟩ := hpreflight
  obtain rfl : document.value = value := by
    rw [fromSlice, hread] at hvalue
    exact Except.ok.inj hvalue
  have h := (within_of_visit document hvisit).value
  refine ⟨h.failsWith_depth 0, fun e he => ?_⟩
  unfold validateManifestCollectionLimits at he
  split at he
  · rename_i fields hmanifest
    have hfields := h.field hmanifest
    have hcollections : ([("data_files", maxManifestDataFiles), ("segments", maxManifestSegments),
        ("tombstones", maxManifestTombstones)].forM fun (field, limit) =>
          ensureItems (.object fields) field limit (.collection field · limit)) = .ok () := by
      rw [forM_eq_ok]
      rintro ⟨field, limit⟩ hf
      have hlimit : limit = arrayLimit field := by
        simp only [List.mem_cons, Prod.mk.injEq, List.not_mem_nil, or_false] at hf
        rcases hf with ⟨rfl, rfl⟩ | ⟨rfl, rfl⟩ | ⟨rfl, rfl⟩ <;> rfl
      subst hlimit
      exact hfields.ensureItems field _
    rw [hcollections, ok_bind] at he
    exact absurd ((hfields.ensureItems "schema_ipc" .schemaIpc).symm.trans he) (by simp)
  · exact (Except.error.inj he).symm

/-- An envelope with a key twice; the fields of the first are visited and then dropped. -/
def repeatedKey : Json ℕ :=
  .object [("manifest", .object [("segments", .array [.null, .string "a"])]),
    ("manifest", .object [("data_files", .array [.number 7])])]

theorem streaming_limits_subsume_repeatedKey :
    validateJsonLimits 0 maxManifestArrayItems repeatedKey.value ≠ .error .keyLength ∧
      validateManifestCollectionLimits repeatedKey.value ≠ .error (.schemaIpc 0) := by
  have h := streaming_limits_subsume ⟨fun _ => .ok repeatedKey⟩ [] repeatedKey.value rfl rfl
  exact ⟨fun he => absurd (h.1 _ he) (by simp), fun he => absurd (h.2 _ he) (by simp)⟩

end StrataDB.Storage
