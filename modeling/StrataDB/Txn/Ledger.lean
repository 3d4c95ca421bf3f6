import StrataDB.Lib.History
import StrataDB.Txn.Migrating

/-! The record of all publications of a dataset. On the abstract side an event is
a function on the rows of a table, and a version holds what the events up to it
make of the empty table. -/

namespace StrataDB.Txn

open Lib Arrow Index Storage

/-- What made a version: the creation, the commit of a transaction with what it
staged, the ids and the timestamp it was given, a compaction, or the migration. -/
inductive Event
  | created
  | commit (txn base : ℕ) (writeSet : List ℕ) (pending : List RecordBatch) (rowIdBase : ℕ)
      (ts : ℤ)
  | compaction
  | migration (column : Field)

namespace Event

/-- The rows after the event: a commit takes its write set out and appends its
batches in staging order, a migration adds a null column. -/
def apply : Event → List Row → List Row
  | created, _ => []
  | commit _ _ writeSet pending rowIdBase ts, rows =>
    rows.filter (fun r => storedRowId r ∉ writeSet) ++
      stagedRows (pending.flatMap RecordBatch.rows) rowIdBase ts
  | compaction, rows => rows
  | migration _, rows => rows.map migratedRow

/-- The rows the event tombstones. -/
def writeSet : Event → List ℕ
  | commit _ _ writeSet _ _ _ => writeSet
  | _ => []

/-- The row ids the event hands out. -/
def newIds : Event → List ℕ
  | commit _ _ _ pending rowIdBase _ =>
    List.range' rowIdBase (pending.flatMap RecordBatch.rows).length
  | _ => []

/-- A live row was live before or is new. -/
theorem mem_apply {schema : Schema} {rows : List Row}
    (hfits : ∀ r ∈ rows, fitsFields (fullFields schema) r = true) {e : Event} {x : ℕ}
    (h : x ∈ (e.apply rows).map storedRowId) :
    (x ∈ rows.map storedRowId ∧ x ∉ e.writeSet) ∨ x ∈ e.newIds := by
  cases e with
  | created => cases h
  | commit txn base ws pending rowIdBase ts =>
    rw [apply, List.map_append, stagedRows_rowIds] at h
    rcases List.mem_append.mp h with h | h
    · obtain ⟨r, hr, rfl⟩ := List.mem_map.mp h
      obtain ⟨hr, hnot⟩ := List.mem_filter.mp hr
      exact .inl ⟨List.mem_map_of_mem hr, by simpa [writeSet] using hnot⟩
    · exact .inr h
  | compaction => exact .inl ⟨h, List.not_mem_nil⟩
  | migration column =>
    rw [apply, List.map_map] at h
    obtain ⟨r, hr, rfl⟩ := List.mem_map.mp h
    refine .inl ⟨List.mem_map.mpr ⟨r, hr, ?_⟩, List.not_mem_nil⟩
    exact (storedRowId_migratedRow (hfits r hr)).symm

end Event

/-- The rows that the events leave, one after the other, from the empty table on. -/
def replay (events : List Event) : List Row := events.foldl (fun rows e => e.apply rows) []

theorem replay_append (events : List Event) (e : Event) :
    replay (events ++ [e]) = e.apply (replay events) := by
  rw [replay, List.foldl_append]
  rfl

/-- A published version, with the store right after it became visible. -/
structure Publication where
  event : Event
  snapshot : Snapshot
  store : Store

namespace Publication

/-- The version is valid, its objects are in the store, and these are its live
rows. -/
def Shows (P : Platform) (h : Publication) (rows : List Row) : Prop :=
  ∃ cat, h.snapshot.Valid P cat ∧ cat.StoredIn h.store ∧
    cat.liveRows h.snapshot.tombstones = rows

variable {P : Platform} {h : Publication} {rows : List Row}

theorem Shows.unique {rows' : List Row} (hr : h.Shows P rows) (hr' : h.Shows P rows') :
    rows = rows' := by
  obtain ⟨cat, hv, hs, rfl⟩ := hr
  obtain ⟨cat', hv', hs', rfl⟩ := hr'
  exact hv.liveRows_unique hv' hs hs'

theorem Shows.ownsLiveRow_iff (hr : h.Shows P rows) {i : ℕ} :
    h.snapshot.ownsLiveRow i = true ↔ i ∈ rows.map storedRowId := by
  obtain ⟨cat, hv, _, rfl⟩ := hr
  exact hv.ownsLiveRow_iff

theorem Shows.fits (hr : h.Shows P rows) :
    ∀ r ∈ rows, fitsFields (fullFields h.snapshot.schema) r = true := by
  obtain ⟨cat, hv, _, rfl⟩ := hr
  exact fun r hr => Catalog.fits hv (List.mem_of_mem_filter hr)

/-- The schema version recorded in the manifest. -/
def schemaVersion (h : Publication) : ℕ := h.snapshot.manifest.effectiveSchemaVersion

end Publication

/-- One version after another; `earlier` are all versions up to `h`. -/
structure Successor (P : Platform) (earlier : List Publication) (h h' : Publication) : Prop where
  version : h'.snapshot.version = h.snapshot.version + 1
  shows : ∃ rows, h.Shows P rows ∧ h'.Shows P (h'.event.apply rows)
  targets : ∀ i ∈ h'.event.writeSet, h.snapshot.ownsLiveRow i = true
  tombstones : ∀ i, i ∈ h'.event.writeSet ↔
    i ∈ h'.snapshot.tombstones ∧ i ∉ h.snapshot.tombstones
  fresh : ∀ i ∈ h'.event.newIds, ∀ g ∈ earlier, g.snapshot.ownsRow i = false
  attempts : h.snapshot.manifest.nextAttemptId ≤ h'.snapshot.manifest.nextAttemptId
  rowIds : h.snapshot.manifest.nextRowId ≤ h'.snapshot.manifest.nextRowId
  schema : (h'.schemaVersion = h.schemaVersion ∧ h'.snapshot.schema = h.snapshot.schema) ∨
    (h.schemaVersion < h'.schemaVersion ∧
      h.snapshot.schema.fields.length < h'.snapshot.schema.fields.length)

/-- A record that starts with a creation and goes on version by version. -/
inductive Chain (P : Platform) : List Publication → Prop
  | created {h : Publication} : h.event = .created → h.Shows P [] → h.snapshot.version = 0 →
    Chain P [h]
  | next {hs : List Publication} {h h' : Publication} : Chain P hs → hs.getLast? = some h →
    Successor P hs h h' → Chain P (hs ++ [h'])

namespace Chain

variable {P : Platform} {hs : List Publication}

theorem ne_nil (hc : Chain P hs) : hs ≠ [] := by
  cases hc <;> simp

theorem getElem?_of_getLast? {α : Type*} {xs : List α} {x : α} (h : xs.getLast? = some x) :
    xs[xs.length - 1]? = some x ∧ 0 < xs.length := by
  rw [List.getLast?_eq_getElem?] at h
  refine ⟨h, ?_⟩
  by_contra hz
  rw [List.eq_nil_of_length_eq_zero (by omega : xs.length = 0)] at h
  cases h

variable {i : ℕ} {h last : Publication}

theorem version (hc : Chain P hs) (hi : hs[i]? = some h) : h.snapshot.version = i := by
  induction hc generalizing i h with
  | created _ _ hv =>
    obtain ⟨rfl, rfl⟩ := getElem?_singleton_cases hi
    exact hv
  | next hc hlast hsucc ih =>
    rcases getElem?_concat_cases hi with ⟨rfl, rfl⟩ | hi
    · obtain ⟨hget, hpos⟩ := getElem?_of_getLast? hlast
      rw [hsucc.version, ih hget]
      omega
    · exact ih hi

theorem versions_drop (hc : Chain P hs) (first : ℕ) :
    (hs.drop first).map (fun h => h.snapshot.version) =
      List.range' first (hs.length - first) := by
  refine List.ext_getElem? fun i => ?_
  rw [List.getElem?_map, List.getElem?_drop]
  by_cases hlt : first + i < hs.length
  · have hi := List.getElem?_eq_getElem hlt
    rw [hi, Option.map_some, hc.version hi, List.getElem?_range' (by omega)]
    simp
  · rw [List.getElem?_eq_none (by omega), List.getElem?_eq_none (by simp; omega)]
    rfl

theorem head_event (hc : Chain P hs) (h0 : hs[0]? = some h) : h.event = .created := by
  induction hc with
  | created he _ _ =>
    cases h0
    exact he
  | next hc _ _ ih =>
    rw [List.getElem?_append_left (List.length_pos_iff.mpr hc.ne_nil)] at h0
    exact ih h0

/-- Every version shows what its events leave. -/
theorem shows (hc : Chain P hs) (hi : hs[i]? = some h) :
    h.Shows P (replay ((hs.take (i + 1)).map Publication.event)) := by
  induction hc generalizing i h with
  | created he hshow _ =>
    obtain ⟨rfl, rfl⟩ := getElem?_singleton_cases hi
    simpa [replay, he, Event.apply] using hshow
  | @next hs last h' hc hlast hsucc ih =>
    rcases getElem?_concat_cases hi with ⟨rfl, rfl⟩ | hi
    · obtain ⟨hget, hpos⟩ := getElem?_of_getLast? hlast
      have hprev := ih hget
      rw [Nat.sub_add_cancel hpos, List.take_length] at hprev
      obtain ⟨rows, hrows, hrows'⟩ := hsucc.shows
      rw [List.take_of_length_le (by simp), List.map_append, List.map_singleton, replay_append,
        ← hrows.unique hprev]
      exact hrows'
    · have hlt := (List.getElem?_eq_some_iff.mp hi).1
      rw [List.take_append_of_le_length (by omega)]
      exact ih hi

theorem successor (hc : Chain P hs) {h' : Publication} (hi : hs[i]? = some h)
    (hi' : hs[i + 1]? = some h') : Successor P (hs.take (i + 1)) h h' := by
  induction hc generalizing i h h' with
  | created _ _ _ =>
    simp at hi'
  | @next hs last new hc hlast hsucc ih =>
    rcases getElem?_concat_cases hi' with ⟨hlen, rfl⟩ | hi'
    · obtain ⟨hget, hpos⟩ := getElem?_of_getLast? hlast
      rw [List.getElem?_append_left (by omega)] at hi
      rw [show hs.length - 1 = i by omega, hi] at hget
      cases hget
      rwa [List.take_append_of_le_length (by omega), List.take_of_length_le (by omega)]
    · have hlt := (List.getElem?_eq_some_iff.mp hi').1
      rw [List.getElem?_append_left (by omega)] at hi
      rw [List.take_append_of_le_length (by omega)]
      exact ih hi hi'

/-- What the last version records is not below what any version records. -/
theorem le_last (hc : Chain P hs) (hlast : hs.getLast? = some last) (hmem : h ∈ hs) :
    h.snapshot.manifest.nextAttemptId ≤ last.snapshot.manifest.nextAttemptId ∧
      h.snapshot.manifest.nextRowId ≤ last.snapshot.manifest.nextRowId ∧
      h.schemaVersion ≤ last.schemaVersion ∧
      (h.schemaVersion = last.schemaVersion → h.snapshot.schema = last.snapshot.schema) := by
  induction hc generalizing last h with
  | created _ _ _ =>
    cases hlast
    obtain rfl := List.mem_singleton.mp hmem
    exact ⟨le_rfl, le_rfl, le_rfl, fun _ => rfl⟩
  | next hc hlast' hsucc ih =>
    rw [List.getLast?_append, List.getLast?_singleton] at hlast
    cases hlast
    rcases List.mem_append.mp hmem with hmem | hmem
    · obtain ⟨h₁, h₂, h₃, h₄⟩ := ih hlast' hmem
      refine ⟨h₁.trans hsucc.attempts, h₂.trans hsucc.rowIds, ?_, fun heq => ?_⟩
      · rcases hsucc.schema with ⟨hv, _⟩ | ⟨hv, _⟩ <;> omega
      · rcases hsucc.schema with ⟨hv, hs⟩ | ⟨hv, _⟩
        · rw [hs]
          exact h₄ (by omega)
        · omega
    · obtain rfl := List.mem_singleton.mp hmem
      exact ⟨le_rfl, le_rfl, le_rfl, fun _ => rfl⟩

/-- A version has the schema of the last one, or fewer columns. -/
theorem schema_or_fewer (hc : Chain P hs) (hlast : hs.getLast? = some last) (hmem : h ∈ hs) :
    h.snapshot.schema = last.snapshot.schema ∨
      h.snapshot.schema.fields.length < last.snapshot.schema.fields.length := by
  induction hc generalizing last h with
  | created _ _ _ =>
    cases hlast
    obtain rfl := List.mem_singleton.mp hmem
    exact .inl rfl
  | next hc hlast' hsucc ih =>
    rw [List.getLast?_append, List.getLast?_singleton] at hlast
    cases hlast
    rcases List.mem_append.mp hmem with hmem | hmem
    · rcases ih hlast' hmem, hsucc.schema with ⟨heq | hlt, ⟨_, heq'⟩ | ⟨_, hlt'⟩⟩
      · exact .inl (heq.trans heq'.symm)
      · exact .inr (heq ▸ hlt')
      · exact .inr (heq' ▸ hlt)
      · exact .inr (hlt.trans hlt')
    · obtain rfl := List.mem_singleton.mp hmem
      exact .inl rfl

end Chain

/-! ### Row ids along the record -/

def liveIds (hs : List Publication) (i : ℕ) : Set ℕ :=
  {x | ∃ h, hs[i]? = some h ∧ h.snapshot.ownsLiveRow x = true}

def ownedIds (hs : List Publication) (i : ℕ) : Set ℕ :=
  {x | ∃ h, hs[i]? = some h ∧ h.snapshot.ownsRow x = true}

def tombstonedIds (hs : List Publication) (i : ℕ) : Set ℕ :=
  {x | ∃ h, hs[i]? = some h ∧ x ∈ h.event.writeSet}

/-- Ids are only handed out once, and only live rows are tombstoned. -/
theorem Chain.flow {P : Platform} {hs : List Publication} (hc : Chain P hs) :
    Flow (liveIds hs) (ownedIds hs) (tombstonedIds hs) hs.length where
  live_subset := by
    rintro i _ x ⟨h, hi, hx⟩
    exact ⟨h, hi, (Snapshot.ownsLiveRow_iff.mp hx).1⟩
  removed_subset := by
    rintro i hlt x ⟨h', hi', hx⟩
    have hi := List.getElem?_eq_getElem (by omega : i < hs.length)
    exact ⟨_, hi, (hc.successor hi hi').targets x hx⟩
  enters := by
    rintro i hlt x ⟨h', hi', hx⟩
    have hi := List.getElem?_eq_getElem (by omega : i < hs.length)
    have hsucc := hc.successor hi hi'
    obtain ⟨rows, hrows, hrows'⟩ := hsucc.shows
    rcases Event.mem_apply hrows.fits (hrows'.ownsLiveRow_iff.mp hx) with ⟨hlive, hnot⟩ | hnew
    · refine .inl ⟨⟨_, hi, hrows.ownsLiveRow_iff.mpr hlive⟩, ?_⟩
      rintro ⟨g, hg, hxg⟩
      rw [hi'] at hg
      cases hg
      exact hnot hxg
    · refine .inr fun j hj hown => ?_
      obtain ⟨g, hg, hxg⟩ := hown
      have hget : (hs.take (i + 1))[j]? = some g := by
        rw [List.getElem?_take_of_lt (by omega)]
        exact hg
      rw [hsucc.fresh x hnew g (List.mem_of_getElem? hget)] at hxg
      cases hxg

end StrataDB.Txn
