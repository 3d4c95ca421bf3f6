import StrataDB.Txn.Compacting

/-! The version a compaction publishes: it is valid, it has no tombstones, and its
live rows are those of its source. -/

namespace StrataDB.Txn

open Lib Arrow Index Storage

variable {d d' : Dataset} {P : Platform} {s : Snapshot} {cat : Catalog}

theorem advances_compactionCandidate (P : Platform) (clock : Option ℕ) (faults : CompactionFaults)
    {r : Except TxnError (Snapshot × CompactionReport)}
    (h : compactionCandidate P clock faults d = (r, d')) :
    Advances (ofAttempt d.writeAttemptCounter) d d' := by
  unfold compactionCandidate at h
  rw [Effect.reads_bind] at h
  rcases Effect.lift_bind_cases h with ⟨_, _, h⟩ | ⟨_, _, _, hd⟩
  swap
  · rw [hd]
    exact .refl _ d
  rcases Effect.lift_bind_cases h with ⟨_, _, h⟩ | ⟨_, _, _, hd⟩
  swap
  · rw [hd]
    exact .refl _ d
  -- The number is taken; the rest writes under it.
  rw [Effect.bind_of_ok (rfl : nextAttempt d = _)] at h
  refine (advances_nextAttempt _ d).trans (Effect.Within.of_eq ?_ h)
  refine advances_bind (advances_lift _) fun _ => advances_bind (fun d => ?_) fun written =>
    advances_bind (fun d => ?_) fun _ => advances_bind (.reads (Advances.refl _) _) fun _ =>
      advances_bind (advances_issueTimestamp _ _) fun _ => advances_bind (advances_lift _) fun _ =>
        .pure (Advances.refl _) _
  · refine (within_rewriteRows P _ _ faults.files _ d).advances.mono ?_
    rintro _ ⟨_, rfl⟩
    rfl
  · refine (within_buildAndWriteSegment P _ written.inserts written.zoneMap faults.segment
      d).advances.mono ?_
    rintro _ rfl
    rfl

/-- The rows that reach the rewriting are the live ones. -/
theorem flatMap_filter_numRows (batches : List RecordBatch) :
    (batches.filter fun b => b.numRows ≠ 0).flatMap RecordBatch.rows =
      batches.flatMap RecordBatch.rows := by
  induction batches with
  | nil => rfl
  | cons b batches ih =>
    by_cases hb : b.numRows = 0
    · have hrows : b.rows = [] := List.eq_nil_of_length_eq_zero hb
      rw [List.filter_cons_of_neg (by simpa using hb), ih, List.flatMap_cons, hrows]
      rfl
    · rw [List.filter_cons_of_pos (by simpa using hb), List.flatMap_cons, List.flatMap_cons, ih]

/-- The vectors of the live rows of a version. -/
def liveVectors (s : Snapshot) (cat : Catalog) : List VectorInsert :=
  (cat.liveRows s.tombstones).filterMap (vectorOf s.schema)

/-- A compaction that is ready to publish: `d` is the handle at its start, `d₁`
the one with the new objects. -/
structure Compacts (P : Platform) (d d₁ : Dataset) (cat : Catalog)
    (files : List (DataFileEntry × RecordBatch)) (segment : Option PublishedSegment) : Prop where
  source : d.current.Valid P cat
  advances : Advances (ofAttempt d.writeAttemptCounter) d d₁
  attempts_lt : d.writeAttemptCounter < d₁.writeAttemptCounter
  rows : RowsCompacted P d.current.schema d.writeAttemptCounter
    (cat.liveRows d.current.tombstones) files
  segment_none : segment = none ↔ liveVectors d.current cat = []
  segment_written : ∀ p ∈ segment, SegmentWritten d.writeAttemptCounter
    (liveVectors d.current cat) (zoneMapOf (cat.files.map fun f => f.1.stats)) p
  files_stored : ∀ f ∈ files, d₁.store.get (.data f.1.name) = some (.rows f.2)
  segment_stored : ∀ p ∈ segment, d₁.store.get (.data p.entry.name) = some (.segment p.reader)

/-- The surviving batches of a valid version store its live rows. -/
theorem Snapshot.Valid.surviving (h : s.Valid P cat) :
    (∀ b ∈ (cat.files.map fun f => s.liveBatch f.2).filter fun b => b.numRows ≠ 0,
      StoresFields s.schema b.schema.fields) ∧
    ((cat.files.map fun f => s.liveBatch f.2).filter fun b => b.numRows ≠ 0).flatMap
      RecordBatch.rows = cat.liveRows s.tombstones := by
  constructor
  · intro b hb
    obtain ⟨f, hf, rfl⟩ := List.mem_map.mp (List.mem_of_mem_filter hb)
    exact (h.fileValid f hf).fields
  · rw [flatMap_filter_numRows, List.flatMap_map, ← liveRows_eq_flatMap]

theorem Snapshot.Valid.liveRows_nodup (h : s.Valid P cat) :
    ((cat.liveRows s.tombstones).map storedRowId).Nodup :=
  h.rowIds_nodup.sublist (List.filter_sublist.map _)

theorem Snapshot.Valid.liveRows_vectorsFinite (h : s.Valid P cat) :
    VectorsFinite s.schema (cat.liveRows s.tombstones) :=
  fun k hk r hr => h.vectorsFinite k hk r (List.mem_of_mem_filter hr)

/-- A candidate holds the live rows of the source and nothing else. -/
theorem compactionCandidate_spec {clock : Option ℕ} {faults : CompactionFaults} {d₁ : Dataset}
    (hv : d.current.Valid P cat) (hs : cat.StoredIn d.store) {snapshot : Snapshot}
    {report : CompactionReport}
    (h : compactionCandidate P clock faults d = (.ok (snapshot, report), d₁)) :
    ∃ ts files segment, Compacts P d d₁ cat files segment ∧
      RunBounds d.current.schema faults.files files ∧
      snapshot = compactedSnapshot d₁ d.current (d.current.version + 1) ts
        (files.map Prod.fst) segment ∧ d.current.version + 1 < u64Bound := by
  have hadv := advances_compactionCandidate P clock faults h
  unfold compactionCandidate at h
  rw [Effect.reads_bind] at h
  simp only [Effect.bind_eq_ok, Effect.lift_apply, Effect.reads_apply, Effect.pure_apply,
    Prod.mk.injEq, Except.ok.injEq, id_eq, localCall, checkedAdd_eq_ok] at h
  obtain ⟨surviving, _, ⟨hsurviving, rfl⟩, version, _, ⟨⟨rfl, hlt⟩, rfl⟩, attempt, d₂, hattempt,
    _, _, ⟨_, rfl⟩, written, d₃, hrewrite, segment, d₄, hsegment, _, _, ⟨rfl, rfl⟩, ts, d₅, hts,
    _, _, ⟨_, rfl⟩, ⟨rfl, rfl⟩, rfl⟩ := h
  rw [hv.readSurvivingPhysicalBatches hs] at hsurviving
  obtain rfl := Except.ok.inj hsurviving
  obtain ⟨hnumber, rfl⟩ := Prod.mk.inj hattempt
  obtain rfl := Except.ok.inj hnumber
  obtain ⟨hbs, hrows⟩ := hv.surviving
  have hn := hv.liveRows_nodup
  have hfin := hv.liveRows_vectorsFinite
  rw [← hrows] at hn hfin
  obtain ⟨files, hfiles, hput, hcompacted, hbounds, hinserts, hzone⟩ :=
    rewriteRows_spec hv.wellNamed hbs hn hfin hrewrite
  rw [hrows] at hcompacted hinserts
  obtain ⟨hnone, hseg⟩ := buildAndWriteSegment_spec hsegment
  obtain rfl := issueTimestamp_eq_ok hts
  have hrows₃ := (within_rewriteRows P d.current _ faults.files _).of_eq hrewrite
  have hseg₄ := (within_buildAndWriteSegment P _ _ _ faults.segment).of_eq hsegment
  refine ⟨ts, files, segment, ?_, hbounds, ?_, hlt⟩
  · constructor
    case source => exact hv
    case advances => exact hadv
    case attempts_lt =>
      show d.writeAttemptCounter < d₄.writeAttemptCounter
      rw [hseg₄.attempts_eq, hrows₃.attempts_eq]
      exact Nat.lt_succ_self _
    case rows => exact hcompacted
    case segment_none => rw [hnone, hinserts, liveVectors]
    case segment_written =>
      intro p hp
      have hne : written.inserts ≠ [] := fun hnil => by
        rw [hnone.mpr hnil] at hp
        cases hp
      have hstats : cat.files.map (fun f => f.1.stats) =
          d.current.manifest.dataFiles.map DataFileEntry.stats := by
        rw [hv.files_eq, List.map_map]
        rfl
      rw [liveVectors, ← hinserts, hstats, ← hzone hne]
      exact (hseg p hp).1
    case files_stored =>
      intro f hf
      have hname : f.1.name ∈ files.map fun f => f.1.name := List.mem_map_of_mem hf
      rw [hcompacted.names] at hname
      obtain ⟨i, _, hi⟩ := List.mem_map.mp hname
      show d₄.store.get _ = _
      rw [hseg₄.data_eq (by rw [← hi]; simp)]
      exact hput f hf
    case segment_stored => exact fun p hp => (hseg p hp).2
  · rw [hfiles]
    rfl

/-! ### The published version -/

/-- The catalog of the objects a compaction wrote. -/
def Catalog.fresh (files : List (DataFileEntry × RecordBatch))
    (segment : Option PublishedSegment) : Catalog where
  files := files
  segments := (segment.map fun p => (p.entry, p.reader)).toList

abbrev compacted (d d₁ : Dataset) (ts : ℤ) (files : List (DataFileEntry × RecordBatch))
    (segment : Option PublishedSegment) : Snapshot :=
  compactedSnapshot d₁ d.current (d.current.version + 1) ts (files.map Prod.fst) segment

namespace Compacts

variable {P : Platform} {d d₁ : Dataset} {cat : Catalog} {ts : ℤ}
  {files : List (DataFileEntry × RecordBatch)} {segment : Option PublishedSegment}

theorem fresh_rows (h : Compacts P d d₁ cat files segment) :
    (Catalog.fresh files segment).rows = cat.liveRows d.current.tombstones :=
  (List.flatMap_def).trans h.rows.runs.flatten

theorem fresh_rowIds (h : Compacts P d d₁ cat files segment) :
    (Catalog.fresh files segment).rowIds =
      (cat.liveRows d.current.tombstones).map storedRowId := by
  rw [Catalog.rowIds, h.fresh_rows]

theorem fresh_vectorIds (h : Compacts P d d₁ cat files segment) :
    (Catalog.fresh files segment).vectorIds =
      (liveVectors d.current cat).map VectorInsert.rowId := by
  cases hseg : segment with
  | none =>
    rw [h.segment_none.mp hseg]
    rfl
  | some p =>
    rw [← (h.segment_written p hseg).rowIds]
    simp [Catalog.fresh, Catalog.vectorIds]

theorem mem_segments (h : Compacts P d d₁ cat files segment) {g : SegmentEntry × Segment}
    (hg : g ∈ (Catalog.fresh files segment).segments) :
    ∃ p ∈ segment, g = (p.entry, p.reader) ∧ SegmentWritten d.writeAttemptCounter
      (liveVectors d.current cat) (zoneMapOf (cat.files.map fun f => f.1.stats)) p := by
  obtain ⟨p, hp, rfl⟩ := Option.map_eq_some_iff.mp (Option.mem_toList.mp hg)
  exact ⟨p, hp, rfl, h.segment_written p hp⟩

theorem objectNames (h : Compacts P d d₁ cat files segment) :
    (compacted d d₁ ts files segment).manifest.objectNames =
      (List.range files.length).map (ObjectName.rowFile d.writeAttemptCounter) ++
        (segment.map fun _ => ObjectName.segment d.writeAttemptCounter).toList := by
  rw [Manifest.objectNames, Manifest.dataNames, Manifest.segmentNames]
  congr 1
  · rw [← h.rows.names]
    exact List.map_map
  · cases hseg : segment with
    | none => rfl
    | some p =>
      simp [compactedSnapshot, (h.segment_written p hseg).name]

theorem names_nodup (h : Compacts P d d₁ cat files segment) :
    (compacted d d₁ ts files segment).manifest.objectNames.Nodup := by
  rw [h.objectNames, List.nodup_append]
  refine ⟨List.nodup_range.map fun i j hij => (ObjectName.rowFile.inj hij).2,
    by cases segment <;> simp, fun a ha b hb => ?_⟩
  obtain ⟨i, _, rfl⟩ := List.mem_map.mp ha
  obtain ⟨_, _, rfl⟩ := Option.map_eq_some_iff.mp (Option.mem_toList.mp hb)
  simp

theorem ofAttempt_of_mem (h : Compacts P d d₁ cat files segment) {n : ObjectName}
    (hn : n ∈ (compacted d d₁ ts files segment).manifest.objectNames) :
    ofAttempt d.writeAttemptCounter n := by
  rw [h.objectNames] at hn
  rcases List.mem_append.mp hn with hn | hn
  · obtain ⟨_, _, rfl⟩ := List.mem_map.mp hn
    rfl
  · obtain ⟨_, _, rfl⟩ := Option.map_eq_some_iff.mp (Option.mem_toList.mp hn)
    rfl

/-- The segment's zone map covers all rows of the source. -/
theorem zoneCover (h : Compacts P d d₁ cat files segment) :
    ∀ g ∈ (Catalog.fresh files segment).segments, StatsCover d.current.schema g.1.zoneMap
      ((Catalog.fresh files segment).indexedRows g.2) := by
  intro g hg
  obtain ⟨p, _, rfl, hp⟩ := h.mem_segments hg
  rw [hp.zoneMap]
  refine (statsCover_zoneMap (fun f hf y hy => ?_) h.source.fileStats).subset fun r hr => ?_
  · refine isFinite_of_decodes h.source.decodes y (Manifest.mem_floats_of_file ?_ hy)
    rw [h.source.files_eq]
    exact List.mem_map_of_mem hf
  · have hr := List.mem_of_mem_filter hr
    rw [h.fresh_rows] at hr
    exact List.mem_of_mem_filter hr

theorem fresh_vectors (h : Compacts P d d₁ cat files segment) :
    (Catalog.fresh files segment).vectors = liveVectors d.current cat := by
  cases hseg : segment with
  | none => exact (h.segment_none.mp hseg).symm
  | some p =>
    have hp := h.segment_written p hseg
    simp [Catalog.fresh, Catalog.vectors, hp.rowIds, hp.vectors, List.zipWith_map]

theorem valid (h : Compacts P d d₁ cat files segment)
    (hids : d.current.manifest.nextRowId ≤ d.nextRowId)
    (hdec : decodeManifest P.format (d.current.version + 1)
      (compacted d d₁ ts files segment).manifest =
        .ok (compacted d d₁ ts files segment).manifest) :
    (compacted d d₁ ts files segment).Valid P (Catalog.fresh files segment) := by
  constructor
  case version_eq => rfl
  case schema_eq => exact h.source.schema_eq
  case wellNamed => exact h.source.wellNamed
  case decodes => exact hdec
  case files_eq => rfl
  case segments_eq => cases segment <;> rfl
  case names_nodup => exact h.names_nodup
  case fileValid => exact h.rows.fileValid
  case rowIds_nodup =>
    rw [h.fresh_rowIds]
    exact h.source.liveRows_nodup
  case tombstones_eq => rfl
  case tombstones_nodup => exact List.nodup_nil
  case tombstones_owned => exact fun i hi => absurd hi List.not_mem_nil
  case segmentValid =>
    intro g hg
    obtain ⟨p, _, rfl, hp⟩ := h.mem_segments hg
    exact hp.valid
  case dimension_eq =>
    intro g hg g' hg'
    obtain ⟨p, hp, rfl, _⟩ := h.mem_segments hg
    obtain ⟨p', hp', rfl, _⟩ := h.mem_segments hg'
    rw [Option.mem_unique hp hp']
  case vectorIds_nodup =>
    rw [h.fresh_vectorIds]
    cases hseg : segment with
    | none =>
      rw [h.segment_none.mp hseg]
      exact List.nodup_nil
    | some p =>
      have hp := h.segment_written p hseg
      rw [← hp.rowIds]
      exact hp.ascending.imp Nat.ne_of_lt
  case vectorIds_owned =>
    intro i hi
    rw [h.fresh_vectorIds] at hi
    obtain ⟨v, hv, rfl⟩ := List.mem_map.mp hi
    obtain ⟨r, hr, hid⟩ := mem_filterMap_vectorOf hv
    rw [h.fresh_rowIds, ← hid]
    exact List.mem_map_of_mem hr
  case index_eq => cases segment <;> rfl
  case fileStats => exact h.rows.fileStats
  case zoneCover => exact h.zoneCover
  case vectors_eq =>
    rw [h.fresh_vectors, h.fresh_rows]
    rfl
  case vectorsFinite =>
    rw [h.fresh_rows]
    exact h.source.liveRows_vectorsFinite
  case rowIds_lt =>
    intro i hi
    rw [h.fresh_rowIds] at hi
    obtain ⟨r, hr, rfl⟩ := List.mem_map.mp hi
    have hlt := h.source.rowIds_lt (storedRowId r)
      (List.mem_map_of_mem (List.mem_of_mem_filter hr))
    have hle := h.advances.nextRowId_le
    show storedRowId r < d₁.nextRowId
    omega
  case names_below =>
    intro n hn
    have hof := h.ofAttempt_of_mem hn
    have hlt := h.attempts_lt
    cases n <;> simp only [ofAttempt, ObjectName.attempt?, Option.some.injEq, reduceCtorEq] at hof
    · subst hof
      exact hlt
    · subst hof
      exact hlt

/-- Nothing is tombstoned afterwards and every live row is still there. -/
theorem liveRows (h : Compacts P d d₁ cat files segment) :
    (Catalog.fresh files segment).liveRows (compacted d d₁ ts files segment).tombstones =
      cat.liveRows d.current.tombstones := by
  rw [Catalog.liveRows, h.fresh_rows]
  exact List.filter_eq_self.mpr fun r _ => by simp [compactedSnapshot]

theorem storedIn (h : Compacts P d d₁ cat files segment) :
    (Catalog.fresh files segment).StoredIn d₁.store := by
  refine ⟨h.files_stored, fun g hg => ?_⟩
  obtain ⟨p, hp, rfl, _⟩ := h.mem_segments hg
  exact h.segment_stored p hp

end Compacts

/-- A compaction either publishes the rewritten version or only used up numbers
and names of its own. -/
theorem publishCompaction_cases {clock : Option ℕ} {faults : CompactionFaults}
    {r : Except TxnError CompactionReport} (hv : d.current.Valid P cat) (hs : cat.StoredIn d.store)
    (hids : d.current.manifest.nextRowId ≤ d.nextRowId)
    (hfree : d.store.get (.manifest (d.current.version + 1)) = none)
    (h : publishCompaction P clock faults d = (r, d')) :
    (∃ d₁ ts files segment, Compacts P d d₁ cat files segment ∧
      VisibleResult (d.current.version + 1) r ∧
      d' = d₁.published (compacted d d₁ ts files segment) [] ∧
      (compacted d d₁ ts files segment).Valid P (Catalog.fresh files segment)) ∨
    ((∃ e, r = .error e) ∧ Advances (ofAttempt d.writeAttemptCounter) d d') := by
  unfold publishCompaction at h
  rcases Effect.bind_cases h with ⟨⟨snapshot, report⟩, d₁, hcand, hpub⟩ | ⟨e, hcand, hr⟩
  · obtain ⟨ts, files, segment, hc, -, rfl, _⟩ := compactionCandidate_spec hv hs hcand
    have hfree₁ : d₁.store.get (.manifest (d.current.version + 1)) = none := by
      rw [hc.advances.manifest_eq, hfree]
    rcases publish_cases hfree₁ rfl hpub with ⟨hvisible, hd, hdec⟩ | ⟨⟨e, hr⟩, hd⟩
    · exact .inl ⟨d₁, ts, files, segment, hc, hvisible, hd, hc.valid hids hdec⟩
    · rw [hd]
      exact .inr ⟨⟨_, hr⟩, hc.advances⟩
  · exact .inr ⟨⟨e, hr⟩, advances_compactionCandidate P clock faults hcand⟩

end StrataDB.Txn
