import StrataDB.Txn.Outcome
import StrataDB.Txn.Preparing
import StrataDB.Txn.Reading

/-! A commit on top of a valid version: staging keeps a transaction well formed,
and layering its prepared objects over the latest manifest gives a valid version
whose live rows are the old ones without the write set, then the staged ones. -/

namespace StrataDB.Txn

open Lib Arrow Index Storage

/-! ### Staging -/

/-- What staging keeps true of a transaction. -/
structure Transaction.Staged (t : Transaction) : Prop where
  schema_eq : t.schema = t.base.schema
  batches : ∀ b ∈ t.pending, b.schema = t.schema
  tombstones_eq : t.pendingTombstones = t.writeSet
  nodup : t.writeSet.Nodup
  calls : ∃ calls, t.StagedBy calls

namespace Transaction

variable {t t' : Transaction}

theorem staged_begin (d : Dataset) : (begin d).Staged :=
  ⟨rfl, by simp [begin, onBase], rfl, by simp [begin, onBase], [], rfl⟩

variable {call : Call} {batch : RecordBatch} {rowId : ℕ}

theorem StagedBy.append {calls : List Call} (h : t.StagedBy calls) (hc : t.stage call = .ok t')
    (hbase : t'.base = t.base) : t'.StagedBy (calls ++ [call]) := by
  rw [StagedBy, hbase, List.foldlM_append, h, ok_bind, List.foldlM_cons, hc]
  rfl

theorem Staged.calls_append (h : t.Staged) (hc : t.stage call = .ok t') (hbase : t'.base = t.base) :
    ∃ calls, t'.StagedBy calls := by
  obtain ⟨calls, hcalls⟩ := h.calls
  exact ⟨_, hcalls.append hc hbase⟩

theorem Staged.insert (h : t.Staged) (hi : t.insert batch = .ok t') :
    t'.Staged ∧ t'.base = t.base := by
  have hcalls := h.calls_append (show t.stage (.insert batch) = .ok t' from hi)
  simp only [Transaction.insert, validateBatch, bind_eq_ok, ensure_eq_ok, pure_eq_ok] at hi
  obtain ⟨_, hschema, rfl⟩ := hi
  refine ⟨⟨h.schema_eq, ?_, h.tombstones_eq, h.nodup, hcalls rfl⟩, rfl⟩
  exact List.forall_mem_append.mpr ⟨h.batches, by simpa using hschema⟩

theorem Staged.nodup_target (h : t.Staged) (hv : t.validateTarget rowId = .ok ()) :
    (t.writeSet ++ [rowId]).Nodup := by
  simp only [validateTarget, bind_eq_ok, ensure_eq_ok] at hv
  obtain ⟨_, hnew, _⟩ := hv
  rw [h.tombstones_eq] at hnew
  refine List.nodup_append.mpr ⟨h.nodup, List.nodup_singleton _, fun a ha b hb hab => hnew ?_⟩
  rwa [← List.mem_singleton.mp hb, ← hab]

theorem Staged.delete (h : t.Staged) (hi : t.delete rowId = .ok t') :
    t'.Staged ∧ t'.base = t.base := by
  have hcalls := h.calls_append (show t.stage (.delete rowId) = .ok t' from hi)
  simp only [Transaction.delete, bind_eq_ok, pure_eq_ok] at hi
  obtain ⟨_, htarget, rfl⟩ := hi
  exact ⟨⟨h.schema_eq, h.batches, by rw [h.tombstones_eq], h.nodup_target htarget,
    hcalls rfl⟩, rfl⟩

theorem Staged.update (h : t.Staged) (hi : t.update rowId batch = .ok t') :
    t'.Staged ∧ t'.base = t.base := by
  have hcalls := h.calls_append (show t.stage (.update rowId batch) = .ok t' from hi)
  simp only [Transaction.update, validateBatch, bind_eq_ok, ensure_eq_ok, pure_eq_ok] at hi
  obtain ⟨_, hschema, _, _, _, htarget, rfl⟩ := hi
  refine ⟨⟨h.schema_eq, ?_, by rw [h.tombstones_eq], h.nodup_target htarget, hcalls rfl⟩, rfl⟩
  exact List.forall_mem_append.mpr ⟨h.batches, by simpa using hschema⟩

end Transaction

/-! ### Ownership -/

variable {P : Platform} {i : ℕ} {s : Snapshot} {cat : Catalog} {t : Transaction}

theorem FileValid.owns_iff {schema : Schema} {f : DataFileEntry × RecordBatch}
    (h : FileValid P schema f) :
    (match f.1.rowIdRange with
      | some (first, last) => decide (first ≤ i) && decide (i ≤ last)
      | none => false) = true ↔ i ∈ f.2.rows.map storedRowId := by
  obtain ⟨first, hrange, hids⟩ := h.rowIds
  rw [hids, hrange, rowIdRangeOf, List.mem_range'_1]
  by_cases hz : f.1.rowCount = 0
  · simp [hz]
  · simp only [hz, if_false, Bool.and_eq_true, decide_eq_true_eq]
    omega

theorem Snapshot.Valid.ownsRow_iff (h : s.Valid P cat) : s.ownsRow i = true ↔ i ∈ cat.rowIds := by
  unfold Snapshot.ownsRow
  rw [h.files_eq, List.any_map, List.any_eq_true, cat.rowIds_eq, List.mem_flatMap]
  constructor
  · rintro ⟨f, hf, hown⟩
    exact ⟨f, hf, (h.fileValid f hf).owns_iff.mp hown⟩
  · rintro ⟨f, hf, hmem⟩
    exact ⟨f, hf, (h.fileValid f hf).owns_iff.mpr hmem⟩

theorem Snapshot.ownsLiveRow_iff :
    s.ownsLiveRow i = true ↔ s.ownsRow i = true ∧ i ∉ s.tombstones := by
  simp [Snapshot.ownsLiveRow, Snapshot.isVisible]

/-- The live ids of a valid snapshot are those of its live rows. -/
theorem Snapshot.Valid.ownsLiveRow_iff (h : s.Valid P cat) :
    s.ownsLiveRow i = true ↔ i ∈ (cat.liveRows s.tombstones).map storedRowId := by
  rw [Snapshot.ownsLiveRow_iff, h.ownsRow_iff, Catalog.rowIds, Catalog.liveRows, List.mem_map,
    List.mem_map]
  constructor
  · rintro ⟨⟨r, hr, rfl⟩, hlive⟩
    exact ⟨r, List.mem_filter.mpr ⟨hr, by simpa using hlive⟩, rfl⟩
  · rintro ⟨r, hr, rfl⟩
    obtain ⟨hr, hlive⟩ := List.mem_filter.mp hr
    exact ⟨⟨r, hr, rfl⟩, by simpa using hlive⟩

/-! ### Layering -/

theorem layerTombstones_of_new {pending set listed : List ℕ} (hn : pending.Nodup)
    (hnew : ∀ i ∈ pending, i ∉ set) :
    layerTombstones pending set listed = (set ++ pending, listed ++ pending) := by
  unfold layerTombstones
  induction pending generalizing set listed with
  | nil => simp
  | cons i pending ih =>
    rw [List.nodup_cons] at hn
    rw [List.forall_mem_cons] at hnew
    rw [List.foldl_cons]
    dsimp only
    rw [if_neg (by simpa using hnew.1), ih hn.2]
    · simp
    · intro j hj hmem
      rcases List.mem_append.mp hmem with hmem | hmem
      · exact hnew.2 j hj hmem
      · exact hn.1 (List.mem_singleton.mp hmem ▸ hj)

theorem checkCommit_eq_ok {log : CommitLog} {latest : Snapshot} {u : Unit} :
    checkCommit log latest t = .ok u ↔
      latest.manifest.effectiveSchemaVersion = t.base.manifest.effectiveSchemaVersion ∧
        log.conflictsWith t.base.version latest.version t.writeSet = .clean ∧
        ∀ i ∈ t.writeSet, latest.ownsLiveRow i = true := by
  unfold checkCommit
  cases log.conflictsWith t.base.version latest.version t.writeSet <;>
    simp only [bind_eq_ok, ensure_eq_ok, exists_const, forM_eq_ok, reduceCtorEq,
      false_and, and_false, true_and]

/-- The objects of one preparation: row files and a segment over their vectors.
A transaction without batches has neither. -/
structure Prepared (P : Platform) (t : Transaction) (ts : ℤ) (attempt base : ℕ)
    (files : List (DataFileEntry × RecordBatch)) (inserts : List VectorInsert)
    (segment : Option PublishedSegment) : Prop where
  segment_none : segment = none ↔ inserts = []
  segment : ∀ p ∈ segment,
    SegmentWritten attempt inserts (zoneMapOf (files.map fun f => f.1.stats)) p
  files : FilesWritten P t.schema attempt ts 0 base t.pending files inserts

/-- The rows a transaction stages. -/
def Transaction.rows (t : Transaction) : List Row := t.pending.flatMap RecordBatch.rows

/-- An attempt id and a range of row ids that no object of the current version
uses. -/
structure Reserved (d : Dataset) (attempt base count : ℕ) : Prop where
  attempt_lt : attempt < d.writeAttemptCounter
  names : ∀ n ∈ d.current.manifest.objectNames, n.attempt? ≠ some attempt
  ids_le : base + count ≤ d.nextRowId
  ids : ∀ i, base ≤ i → i < base + count → d.current.ownsRow i = false

/-- The catalog with the objects of a commit. -/
def Catalog.extend (cat : Catalog) (files : List (DataFileEntry × RecordBatch))
    (segment : Option PublishedSegment) : Catalog where
  files := cat.files ++ files
  segments := cat.segments ++ (segment.map fun p => (p.entry, p.reader)).toList

section

variable {P : Platform} {t : Transaction} {ts : ℤ} {attempt base : ℕ}
  {files : List (DataFileEntry × RecordBatch)} {inserts : List VectorInsert}
  {segment : Option PublishedSegment}

theorem Prepared.rowIds (h : Prepared P t ts attempt base files inserts segment) :
    (files.flatMap fun f => f.2.rows).map storedRowId = List.range' base t.rows.length := by
  rw [h.files.rows, stagedRows_rowIds, Transaction.rows]

theorem Prepared.names (h : Prepared P t ts attempt base files inserts segment) :
    ∀ n ∈ files.map (fun f => f.1.name) ++
      (segment.map fun p => p.entry.name).toList, n.attempt? = some attempt := by
  intro n hn
  rcases List.mem_append.mp hn with hn | hn
  · rw [h.files.names] at hn
    obtain ⟨i, _, rfl⟩ := List.mem_map.mp hn
    rfl
  · obtain ⟨p, hp, rfl⟩ := Option.map_eq_some_iff.mp (Option.mem_toList.mp hn)
    rw [(h.segment p hp).name]
    rfl

theorem Prepared.names_nodup (h : Prepared P t ts attempt base files inserts segment) :
    (files.map (fun f => f.1.name) ++ (segment.map fun p => p.entry.name).toList).Nodup := by
  refine List.nodup_append.mpr ⟨?_, by cases segment <;> simp, fun a ha b hb => ?_⟩
  · rw [h.files.names]
    exact (List.nodup_range').map fun i j hij => by cases hij; rfl
  · rw [h.files.names] at ha
    obtain ⟨i, _, rfl⟩ := List.mem_map.mp ha
    obtain ⟨p, hp, rfl⟩ := Option.map_eq_some_iff.mp (Option.mem_toList.mp hb)
    rw [(h.segment p hp).name]
    simp

theorem Prepared.nil (h : Prepared P t ts attempt base files inserts segment)
    (hnil : t.pending = []) : files = [] ∧ segment = none := by
  have hfiles : files.map (fun f => f.1.name) = [] := by rw [h.files.names, hnil]; rfl
  obtain rfl : files = [] := by simpa using hfiles
  exact ⟨rfl, h.segment_none.mpr h.files.inserts⟩

theorem Prepared.vectorId_mem (h : Prepared P t ts attempt base files inserts segment)
    {p : PublishedSegment} (hp : p ∈ segment) {i : ℕ} (hi : i ∈ p.reader.rowIds) :
    i ∈ (files.flatMap fun f => f.2.rows).map storedRowId := by
  rw [(h.segment p hp).rowIds, h.files.inserts] at hi
  obtain ⟨v, hv, rfl⟩ := List.mem_map.mp hi
  obtain ⟨r, hr, hid⟩ := mem_filterMap_vectorOf hv
  exact hid ▸ List.mem_map_of_mem hr

end

/-- All segments of a valid version share the established dimension. -/
theorem Snapshot.Valid.establishedDimension_eq (h : s.Valid P cat) {g : SegmentEntry × Segment}
    (hg : g ∈ cat.segments) : establishedDimension s.index = g.1.dimension := by
  have hparts : s.index.map (fun part => part.1.dimension) =
      cat.segments.map fun g => g.2.dimension := by
    rw [h.index_eq, Catalog.parts, List.map_map]
    rfl
  unfold establishedDimension
  rw [hparts]
  cases hsegs : cat.segments with
  | nil =>
    rw [hsegs] at hg
    cases hg
  | cons g₀ rest =>
    have hmem : g₀ ∈ cat.segments := by rw [hsegs]; exact List.mem_cons_self
    have hvalid := h.segmentValid g₀ hmem
    rw [List.map_cons, List.find?_cons_of_pos (by simpa using hvalid.dimension_ne_zero),
      Option.getD_some, hvalid.dimension]
    exact h.dimension_eq g₀ hmem g hg

/-! ### The version a commit publishes -/

section

variable {P : Platform} {d : Dataset} {cat : Catalog} {t : Transaction} {ts : ℤ}
  {version attempt base : ℕ} {files : List (DataFileEntry × RecordBatch)}
  {inserts : List VectorInsert} {segment : Option PublishedSegment}

theorem Catalog.extend_rows (cat : Catalog) (files : List (DataFileEntry × RecordBatch))
    (segment : Option PublishedSegment) :
    (cat.extend files segment).rows = cat.rows ++ files.flatMap fun f => f.2.rows := by
  simp [Catalog.extend, Catalog.rows]

theorem Catalog.extend_rowIds (cat : Catalog) (files : List (DataFileEntry × RecordBatch))
    (segment : Option PublishedSegment) :
    (cat.extend files segment).rowIds =
      cat.rowIds ++ (files.flatMap fun f => f.2.rows).map storedRowId := by
  rw [Catalog.rowIds, Catalog.extend_rows, List.map_append]
  rfl

theorem Catalog.extend_vectorIds (cat : Catalog) (files : List (DataFileEntry × RecordBatch))
    (segment : Option PublishedSegment) :
    (cat.extend files segment).vectorIds =
      cat.vectorIds ++ segment.toList.flatMap fun p => p.reader.rowIds := by
  cases segment <;> simp [Catalog.extend, Catalog.vectorIds]

/-- The tombstones after a commit whose targets are live in the latest version. -/
theorem committedSnapshot_tombstones (hv : d.current.Valid P cat) (hst : t.Staged)
    (hlive : ∀ i ∈ t.writeSet, d.current.ownsLiveRow i = true) (ts : ℤ) (version : ℕ)
    (entries : List DataFileEntry) (segment : Option PublishedSegment) :
    (committedSnapshot d t ts version entries segment).tombstones =
        d.current.tombstones ++ t.writeSet ∧
      (committedSnapshot d t ts version entries segment).manifest.tombstones =
        d.current.tombstones ++ t.writeSet := by
  have hlayer : layerTombstones t.pendingTombstones d.current.tombstones
      d.current.manifest.tombstones =
        (d.current.tombstones ++ t.writeSet, d.current.tombstones ++ t.writeSet) := by
    rw [hst.tombstones_eq, ← hv.tombstones_eq]
    exact layerTombstones_of_new hst.nodup fun i hi =>
      (Snapshot.ownsLiveRow_iff.mp (hlive i hi)).2
  simp only [committedSnapshot, hlayer, and_self]

theorem Prepared.rowId_new (h : Prepared P t ts attempt base files inserts segment)
    (hv : d.current.Valid P cat)
    (hres : t.pending ≠ [] → Reserved d attempt base t.rows.length) {i : ℕ}
    (hi : i ∈ (files.flatMap fun f => f.2.rows).map storedRowId) :
    i ∉ cat.rowIds ∧ i < d.nextRowId := by
  rw [h.rowIds, List.mem_range'_1] at hi
  have hne : t.pending ≠ [] := by
    intro hnil
    simp [Transaction.rows, hnil] at hi
    omega
  refine ⟨fun hmem => ?_, by have := (hres hne).ids_le; omega⟩
  have := (hres hne).ids i hi.1 hi.2
  rw [hv.ownsRow_iff.mpr hmem] at this
  cases this

/-- A prepared transaction that has passed the checks against the latest version. -/
structure Commits (P : Platform) (d : Dataset) (cat : Catalog) (t : Transaction) (ts : ℤ)
    (attempt base : ℕ) (files : List (DataFileEntry × RecordBatch))
    (inserts : List VectorInsert) (segment : Option PublishedSegment) : Prop where
  latest : d.current.Valid P cat
  staged : t.Staged
  prepared : Prepared P t ts attempt base files inserts segment
  reserved : t.pending ≠ [] → Reserved d attempt base t.rows.length
  schema_eq : t.schema = d.current.schema
  live : ∀ i ∈ t.writeSet, d.current.ownsLiveRow i = true
  dimension : checkSegmentDimension d.current segment = .ok ()
  attempts_le : d.current.manifest.nextAttemptId ≤ d.writeAttemptCounter
  rowIds_le : d.current.manifest.nextRowId ≤ d.nextRowId

/-- The version such a transaction publishes. -/
abbrev committed (d : Dataset) (t : Transaction) (ts : ℤ)
    (files : List (DataFileEntry × RecordBatch)) (segment : Option PublishedSegment) : Snapshot :=
  committedSnapshot d t ts (d.current.version + 1) (files.map Prod.fst) segment

namespace Commits

theorem objectNames_perm (h : Commits P d cat t ts attempt base files inserts segment) :
    (committed d t ts files segment).manifest.objectNames.Perm
      (d.current.manifest.objectNames ++
        (files.map (fun f => f.1.name) ++ (segment.map fun p => p.entry.name).toList)) := by
  have hfiles : (files.map Prod.fst).map DataFileEntry.name = files.map fun f => f.1.name := by
    rw [List.map_map]
    rfl
  have hsegs : (segment.map PublishedSegment.entry).toList.map SegmentEntry.name =
      (segment.map fun p => p.entry.name).toList := by
    cases segment <;> rfl
  simp only [Manifest.objectNames, Manifest.dataNames, Manifest.segmentNames, committedSnapshot,
    List.map_append, hfiles, hsegs, List.append_assoc]
  exact (List.perm_append_comm_assoc _ _ _).append_left _

theorem names_new (h : Commits P d cat t ts attempt base files inserts segment) {n : ObjectName}
    (hn : n ∈ files.map (fun f => f.1.name) ++ (segment.map fun p => p.entry.name).toList) :
    n ∉ d.current.manifest.objectNames ∧ attempt < d.writeAttemptCounter := by
  have hne : t.pending ≠ [] := by
    intro hnil
    obtain ⟨rfl, rfl⟩ := h.prepared.nil hnil
    simp at hn
  refine ⟨fun hmem => (h.reserved hne).names n hmem ?_, (h.reserved hne).attempt_lt⟩
  exact h.prepared.names n hn

theorem names_nodup (h : Commits P d cat t ts attempt base files inserts segment) :
    (committed d t ts files segment).manifest.objectNames.Nodup := by
  rw [h.objectNames_perm.nodup_iff, List.nodup_append]
  refine ⟨h.latest.names_nodup, h.prepared.names_nodup, fun a ha b hb hab => ?_⟩
  exact (h.names_new hb).1 (hab ▸ ha)

theorem names_below (h : Commits P d cat t ts attempt base files inserts segment) :
    ∀ n ∈ (committed d t ts files segment).manifest.objectNames,
      NameBelow d.writeAttemptCounter (d.current.version + 1) n := by
  intro n hn
  rcases List.mem_append.mp (h.objectNames_perm.mem_iff.mp hn) with hn | hn
  · exact (h.latest.names_below n hn).mono h.attempts_le (Nat.le_succ _)
  · have hlt := (h.names_new hn).2
    have hatt := h.prepared.names n hn
    cases n <;> simp only [ObjectName.attempt?, Option.some.injEq, reduceCtorEq] at hatt
    · subst hatt
      exact hlt
    · subst hatt
      exact hlt

variable {g : SegmentEntry × Segment}

theorem dimension_eq (h : Commits P d cat t ts attempt base files inserts segment)
    {p : PublishedSegment} (hp : p ∈ segment) (hg : g ∈ cat.segments) :
    p.entry.dimension = g.1.dimension := by
  have hcheck := h.dimension
  rw [Option.mem_def.mp hp, checkSegmentDimension, ensure_eq_ok,
    h.latest.establishedDimension_eq hg] at hcheck
  have hvalid := h.latest.segmentValid g hg
  rcases hcheck with hzero | heq
  · exact absurd (hvalid.dimension.trans hzero) hvalid.dimension_ne_zero
  · exact heq

theorem rowIds_nodup (h : Commits P d cat t ts attempt base files inserts segment) :
    (cat.extend files segment).rowIds.Nodup := by
  rw [Catalog.extend_rowIds, List.nodup_append]
  refine ⟨h.latest.rowIds_nodup, ?_, fun a ha b hb hab => ?_⟩
  · rw [h.prepared.rowIds]
    exact List.nodup_range'
  · exact (h.prepared.rowId_new h.latest h.reserved hb).1 (hab ▸ ha)

theorem vectorIds_nodup (h : Commits P d cat t ts attempt base files inserts segment) :
    (cat.extend files segment).vectorIds.Nodup := by
  rw [Catalog.extend_vectorIds, List.nodup_append]
  refine ⟨h.latest.vectorIds_nodup, ?_, fun a ha b hb hab => ?_⟩
  · cases hseg : segment with
    | none => simp
    | some p =>
      rw [Option.toList_some, List.flatMap_singleton]
      exact (h.prepared.segment p hseg).ascending.imp Nat.ne_of_lt
  · obtain ⟨p, hp, hb⟩ := List.mem_flatMap.mp hb
    have hnew := h.prepared.rowId_new h.latest h.reserved
      (h.prepared.vectorId_mem (Option.mem_toList.mp hp) hb)
    exact hnew.1 (h.latest.vectorIds_owned b (hab ▸ ha))

theorem mem_segments :
    g ∈ (cat.extend files segment).segments ↔
      g ∈ cat.segments ∨ ∃ p ∈ segment, g = (p.entry, p.reader) := by
  cases segment <;> simp [Catalog.extend]

/-- A segment indexes rows of the version it was published in. -/
theorem zoneCover (h : Commits P d cat t ts attempt base files inserts segment)
    (hfin : ∀ f ∈ files, ∀ y ∈ Stats.floats f.1.stats, y.isFinite = true) :
    ∀ g ∈ (cat.extend files segment).segments, StatsCover d.current.schema g.1.zoneMap
      ((cat.extend files segment).indexedRows g.2) := by
  intro g hg
  rcases mem_segments.mp hg with hg | ⟨p, hp, rfl⟩
  · refine (h.latest.zoneCover g hg).subset fun r hr => ?_
    obtain ⟨hr, hid⟩ := List.mem_filter.mp hr
    rw [Catalog.extend_rows] at hr
    rcases List.mem_append.mp hr with hr | hr
    · exact List.mem_filter.mpr ⟨hr, hid⟩
    · refine absurd (h.latest.vectorIds_owned _ ?_)
        (h.prepared.rowId_new h.latest h.reserved (List.mem_map_of_mem hr)).1
      exact List.mem_flatMap.mpr ⟨g, hg, of_decide_eq_true hid⟩
  · rw [(h.prepared.segment p hp).zoneMap, ← h.schema_eq]
    refine (statsCover_zoneMap hfin h.prepared.files.fileStats).subset fun r hr => ?_
    obtain ⟨hr, hid⟩ := List.mem_filter.mp hr
    rw [Catalog.extend_rows] at hr
    rcases List.mem_append.mp hr with hr | hr
    · have hnew := h.prepared.rowId_new h.latest h.reserved
        (h.prepared.vectorId_mem hp (of_decide_eq_true hid))
      exact absurd (List.mem_map_of_mem hr) hnew.1
    · exact hr

theorem vectors_eq (h : Commits P d cat t ts attempt base files inserts segment) :
    (cat.extend files segment).vectors =
      (cat.extend files segment).rows.filterMap (vectorOf d.current.schema) := by
  have hnew : (segment.map fun p => (p.entry, p.reader)).toList.flatMap
      (fun g => List.zipWith VectorInsert.mk g.2.rowIds g.2.vectors) = inserts := by
    cases hseg : segment with
    | none => exact (h.prepared.segment_none.mp hseg).symm
    | some p =>
      have hp := h.prepared.segment p hseg
      simp [hp.rowIds, hp.vectors, List.zipWith_map]
  rw [Catalog.extend_rows, List.filterMap_append, ← h.latest.vectors_eq, ← h.schema_eq,
    ← h.prepared.files.inserts, ← hnew, Catalog.vectors, Catalog.vectors, Catalog.extend,
    List.flatMap_append]

theorem tombstones (h : Commits P d cat t ts attempt base files inserts segment) :
    (committed d t ts files segment).tombstones = d.current.tombstones ++ t.writeSet ∧
      (committed d t ts files segment).manifest.tombstones =
        d.current.tombstones ++ t.writeSet :=
  committedSnapshot_tombstones h.latest h.staged h.live ts (d.current.version + 1)
    (files.map Prod.fst) segment

theorem tombstones_nodup (h : Commits P d cat t ts attempt base files inserts segment) :
    (committed d t ts files segment).tombstones.Nodup := by
  rw [h.tombstones.1, List.nodup_append]
  refine ⟨h.latest.tombstones_nodup, h.staged.nodup, fun a ha b hb hab => ?_⟩
  exact (Snapshot.ownsLiveRow_iff.mp (h.live b hb)).2 (hab ▸ ha)

theorem tombstones_owned (h : Commits P d cat t ts attempt base files inserts segment) :
    ∀ i ∈ (committed d t ts files segment).tombstones, i ∈ (cat.extend files segment).rowIds := by
  rw [h.tombstones.1, Catalog.extend_rowIds]
  refine List.forall_mem_append.mpr
    ⟨fun i hi => List.mem_append_left _ (h.latest.tombstones_owned i hi), fun i hi => ?_⟩
  have hlive := (Snapshot.ownsLiveRow_iff.mp (h.live i hi)).1
  exact List.mem_append_left _ (h.latest.ownsRow_iff.mp hlive)

/-- The new segment has the dimension of those before it. -/
theorem dimension_all (h : Commits P d cat t ts attempt base files inserts segment) :
    ∀ g ∈ (cat.extend files segment).segments, ∀ g' ∈ (cat.extend files segment).segments,
      g.1.dimension = g'.1.dimension := by
  intro g hg g' hg'
  rcases mem_segments.mp hg with hg | ⟨p, hp, rfl⟩ <;>
    rcases mem_segments.mp hg' with hg' | ⟨p', hp', rfl⟩
  · exact h.latest.dimension_eq g hg g' hg'
  · exact (h.dimension_eq hp' hg).symm
  · exact h.dimension_eq hp hg'
  · rw [Option.mem_unique hp hp']

theorem vectorIds_owned (h : Commits P d cat t ts attempt base files inserts segment) :
    ∀ i ∈ (cat.extend files segment).vectorIds, i ∈ (cat.extend files segment).rowIds := by
  rw [Catalog.extend_vectorIds, Catalog.extend_rowIds]
  refine List.forall_mem_append.mpr
    ⟨fun i hi => List.mem_append_left _ (h.latest.vectorIds_owned i hi), fun i hi => ?_⟩
  obtain ⟨p, hp, hi⟩ := List.mem_flatMap.mp hi
  exact List.mem_append_right _ (h.prepared.vectorId_mem (Option.mem_toList.mp hp) hi)

theorem valid (h : Commits P d cat t ts attempt base files inserts segment)
    (hdec : decodeManifest P.format (d.current.version + 1)
      (committed d t ts files segment).manifest = .ok (committed d t ts files segment).manifest) :
    (committed d t ts files segment).Valid P (cat.extend files segment) := by
  have hschema : (committed d t ts files segment).schema = d.current.schema := h.schema_eq
  constructor
  case version_eq => rfl
  case schema_eq => exact h.latest.schema_eq.trans h.schema_eq.symm
  case wellNamed => rw [hschema]; exact h.latest.wellNamed
  case decodes => exact hdec
  case files_eq =>
    show d.current.manifest.dataFiles ++ files.map Prod.fst = _
    rw [h.latest.files_eq, Catalog.extend, List.map_append]
  case segments_eq =>
    show d.current.manifest.segments ++ (segment.map PublishedSegment.entry).toList = _
    rw [h.latest.segments_eq, Catalog.extend, List.map_append]
    cases segment <;> rfl
  case names_nodup => exact h.names_nodup
  case fileValid =>
    rw [hschema]
    refine List.forall_mem_append.mpr ⟨h.latest.fileValid, ?_⟩
    rw [← h.schema_eq]
    exact h.prepared.files.fileValid
  case rowIds_nodup => exact h.rowIds_nodup
  case tombstones_eq => rw [h.tombstones.1, h.tombstones.2]
  case tombstones_nodup => exact h.tombstones_nodup
  case tombstones_owned => exact h.tombstones_owned
  case segmentValid =>
    intro g hg
    rcases mem_segments.mp hg with hg | ⟨p, hp, rfl⟩
    · exact h.latest.segmentValid g hg
    · exact (h.prepared.segment p hp).valid
  case dimension_eq => exact h.dimension_all
  case vectorIds_nodup => exact h.vectorIds_nodup
  case vectorIds_owned => exact h.vectorIds_owned
  case index_eq =>
    show d.current.index ++ (segment.map fun p => (p.reader, p.entry.zoneMap)).toList = _
    rw [h.latest.index_eq, Catalog.parts, Catalog.parts, Catalog.extend, List.map_append]
    cases segment <;> rfl
  case fileStats =>
    rw [hschema]
    refine List.forall_mem_append.mpr ⟨h.latest.fileStats, ?_⟩
    rw [← h.schema_eq]
    exact h.prepared.files.fileStats
  case zoneCover =>
    rw [hschema]
    refine h.zoneCover fun f hf y hy => isFinite_of_decodes hdec y ?_
    exact Manifest.mem_floats_of_file
      (List.mem_append_right _ (List.mem_map_of_mem hf)) hy
  case vectors_eq => rw [hschema, h.vectors_eq]
  case vectorsFinite =>
    rw [hschema, Catalog.extend_rows]
    intro k hk
    refine List.forall_mem_append.mpr ⟨h.latest.vectorsFinite k hk, ?_⟩
    rw [← h.schema_eq] at hk
    exact h.prepared.files.vectorsFinite k hk
  case rowIds_lt =>
    rw [Catalog.extend_rowIds]
    refine List.forall_mem_append.mpr ⟨fun i hi => ?_, fun i hi => ?_⟩
    · exact lt_of_lt_of_le (h.latest.rowIds_lt i hi) h.rowIds_le
    · exact (h.prepared.rowId_new h.latest h.reserved hi).2
  case names_below => exact h.names_below

/-- The live rows of the new version: those of the old one outside the write set,
then the staged ones. -/
theorem liveRows (h : Commits P d cat t ts attempt base files inserts segment) :
    (cat.extend files segment).liveRows (committed d t ts files segment).tombstones =
      (cat.liveRows d.current.tombstones).filter (fun r => storedRowId r ∉ t.writeSet) ++
        stagedRows t.rows base ts := by
  rw [h.tombstones.1, Catalog.liveRows, Catalog.extend_rows, List.filter_append]
  congr 1
  · rw [Catalog.liveRows, List.filter_filter]
    refine List.filter_congr fun r _ => ?_
    rw [Bool.eq_iff_iff]
    simp [and_comm]
  · rw [h.prepared.files.rows]
    refine List.filter_eq_self.mpr fun r hr => ?_
    have hmem : storedRowId r ∈ (files.flatMap fun f => f.2.rows).map storedRowId := by
      rw [h.prepared.files.rows]
      exact List.mem_map_of_mem hr
    have hnew := (h.prepared.rowId_new h.latest h.reserved hmem).1
    rw [decide_eq_true_eq, List.mem_append, not_or]
    exact ⟨fun hi => hnew (h.latest.tombstones_owned _ hi), fun hi => hnew
      (h.latest.ownsRow_iff.mp (Snapshot.ownsLiveRow_iff.mp (h.live _ hi)).1)⟩

end Commits

end

/-- A refused or failed publication: a definite error, and nothing has changed. -/
def Refused {α : Type} (d d' : Dataset) (r : Except TxnError α) : Prop :=
  (∃ e, r = .error e ∧ e.Definite) ∧ d' = d

/-- The critical section of a commit either publishes one version in full after
all its checks, or changes nothing. -/
theorem publishCommit_cases {d d' : Dataset} {ts : ℤ} {entries : List DataFileEntry}
    {segment : Option PublishedSegment} {fault : Fault} {r : Except TxnError Unit}
    (hfree : d.store.get (.manifest (d.current.version + 1)) = none)
    (h : publishCommit P t ts entries segment fault d = (r, d')) :
    (VisibleResult (d.current.version + 1) r ∧
      d' = d.published (committedSnapshot d t ts (d.current.version + 1) entries segment)
        t.writeSet ∧
      decodeManifest P.format (d.current.version + 1)
          (committedSnapshot d t ts (d.current.version + 1) entries segment).manifest =
        .ok (committedSnapshot d t ts (d.current.version + 1) entries segment).manifest ∧
      checkCommit d.log d.current t = .ok () ∧
      checkSegmentDimension d.current segment = .ok () ∧ d.current.version + 1 < u64Bound) ∨
    Refused d d' r := by
  unfold publishCommit at h
  rw [Effect.reads_bind] at h
  rcases Effect.lift_bind_cases h with ⟨_, hcheck, h⟩ | ⟨e, hcheck, hr, hd⟩
  swap
  · exact .inr ⟨⟨e, hr, definite_checkCommit _ _ _ e hcheck⟩, hd⟩
  rcases Effect.lift_bind_cases h with ⟨version, hversion, h⟩ | ⟨e, hversion, hr, hd⟩
  swap
  · exact .inr ⟨⟨e, hr, definite_checkedAdd _ _ _ e hversion⟩, hd⟩
  obtain ⟨rfl, hlt⟩ := checkedAdd_eq_ok.mp hversion
  rcases Effect.lift_bind_cases h with ⟨_, hdim, h⟩ | ⟨e, hdim, hr, hd⟩
  swap
  · exact .inr ⟨⟨e, hr, definite_checkSegmentDimension _ _ e hdim⟩, hd⟩
  rcases publish_cases hfree rfl h with ⟨hvisible, hd, hdec⟩ | ⟨⟨e, hr⟩, hd⟩
  · exact .inl ⟨hvisible, hd, hdec, hcheck, hdim, hlt⟩
  · exact .inr ⟨⟨_, hr, fun _ _ => by simp⟩, hd⟩

end StrataDB.Txn
