import StrataDB.Txn.Growth
import StrataDB.Txn.Querying

/-! A compaction preserves content. The version it publishes shows the live rows of
its source in the same order, so every scan and every lookup of a live row is
answered as before; the rows are cut into maximal runs of consecutive ids, one file
each, and the vectors of the live rows are in one segment. -/

namespace StrataDB.Txn

open Lib Arrow Index Storage Query

/-- The file of one run: its range has as many ids as the file has rows. -/
structure RunStored (store : Store) (entry : DataFileEntry) (batch : RecordBatch) : Prop where
  stored : store.get (.data entry.name) = some (.rows batch)
  rowCount : batch.rows.length = entry.rowCount
  rowIds : ∃ first, entry.rowIdRange = some (first, first + entry.rowCount - 1) ∧
    batch.rows.map storedRowId = List.range' first entry.rowCount

/-- `out` on the store after it shows what `source` showed on the store before. -/
structure Snapshot.CompactedFrom (P : Platform) (source out : Snapshot) (before after : Store)
    (live : RecordBatch) : Prop where
  source_rows : source.scan P before (fullSchema source.schema) = .ok live
  out_rows : out.scan P after (fullSchema source.schema) = .ok live
  tombstones : out.tombstones = []
  scanQuery : ∀ request, out.scanQuery P after request = source.scanQuery P before request
  lookupRow : ∀ r ∈ live.rows, ∀ projection,
    out.lookupRow P after ⟨storedRowId r, projection⟩ =
      source.lookupRow P before ⟨storedRowId r, projection⟩
  /-- One segment with the vectors of the live rows; none if no row has a vector. -/
  segment : (live.rows.filterMap (vectorOf source.schema) = [] ∧ out.index = []) ∨
    ∃ segment zoneMap, out.index = [(segment, zoneMap)] ∧
      segment.rowIds =
        (live.rows.filterMap (vectorOf source.schema)).map VectorInsert.rowId ∧
      segment.vectors = (live.rows.filterMap (vectorOf source.schema)).map VectorInsert.vector
  files : ∃ batches, List.Forall₂ (RunStored after) out.manifest.dataFiles batches ∧
    MaximalRuns storedRowId live.rows (batches.map RecordBatch.rows)
  disjoint : out.manifest.dataFiles.Pairwise fun a b => ∀ i,
    ¬ (Snapshot.coversRow a i = true ∧ Snapshot.coversRow b i = true)

variable {P : Platform} {d d₁ : Dataset} {cat : Catalog} {ts : ℤ}
  {files : List (DataFileEntry × RecordBatch)} {segment : Option PublishedSegment}

/-- A live row is looked up in the rewritten files as in the old ones. -/
theorem Compacts.answerLookup (hc : Compacts P d d₁ cat files segment) {r : Row}
    (hr : r ∈ cat.liveRows d.current.tombstones) (projection : Projection) :
    (compacted d d₁ ts files segment).answerLookup (Catalog.fresh files segment).rows
        ⟨storedRowId r, projection⟩ =
      d.current.answerLookup cat.rows ⟨storedRowId r, projection⟩ := by
  have hfresh := find?_key_eq hc.source.liveRows_nodup hr
  have hsource := find?_key_eq hc.source.rowIds_nodup (List.mem_of_mem_filter hr)
  have hlive : d.current.isVisible (storedRowId r) = true := by
    simpa [Snapshot.isVisible] using (List.mem_filter.mp hr).2
  have houtcome : ∀ names, (compacted d d₁ ts files segment).rowOutcome names r =
      d.current.rowOutcome names r := by
    intro names
    unfold Snapshot.rowOutcome
    rw [hlive]
    rfl
  unfold Snapshot.answerLookup
  rw [hc.fresh_rows]
  simp only [hfresh, hsource, houtcome]
  rfl

/-- The ranges of files that hold different rows are disjoint. -/
theorem Snapshot.Valid.coversRow_disjoint {s : Snapshot} (h : s.Valid P cat) :
    s.manifest.dataFiles.Pairwise fun a b => ∀ i,
      ¬ (Snapshot.coversRow a i = true ∧ Snapshot.coversRow b i = true) := by
  have hnodup := h.rowIds_nodup
  rw [cat.rowIds_eq, List.nodup_flatMap] at hnodup
  rw [h.files_eq, List.pairwise_map]
  refine (List.pairwise_iff_forall_sublist.mpr fun {f g} hsub => ?_)
  have hdisj := List.pairwise_iff_forall_sublist.mp hnodup.2 hsub
  rintro i ⟨hf, hg⟩
  have hmem := hsub.subset
  have hfi := (h.fileValid f (hmem List.mem_cons_self)).owns_iff.mp hf
  have hgi := (h.fileValid g (hmem (List.mem_cons_of_mem _ List.mem_cons_self))).owns_iff.mp hg
  exact hdisj hfi hgi

theorem FileValid.runStored {schema : Schema} {f : DataFileEntry × RecordBatch} {store : Store}
    (h : FileValid P schema f) (hne : f.2.rows ≠ [])
    (hstored : store.get (.data f.1.name) = some (.rows f.2)) : RunStored store f.1 f.2 := by
  obtain ⟨first, hrange, hids⟩ := h.rowIds
  have hcount : f.1.rowCount ≠ 0 := by
    rw [← h.rowCount]
    exact fun h0 => hne (List.eq_nil_of_length_eq_zero h0)
  exact ⟨hstored, h.rowCount, first, by rw [hrange, rowIdRangeOf, if_neg hcount], hids⟩

theorem Compacts.index_cases (hc : Compacts P d d₁ cat files segment) :
    (liveVectors d.current cat = [] ∧ (compacted d d₁ ts files segment).index = []) ∨
      ∃ reader zoneMap, (compacted d d₁ ts files segment).index = [(reader, zoneMap)] ∧
        reader.rowIds = (liveVectors d.current cat).map VectorInsert.rowId ∧
        reader.vectors = (liveVectors d.current cat).map VectorInsert.vector := by
  cases hseg : segment with
  | none => exact .inl ⟨hc.segment_none.mp hseg, rfl⟩
  | some p =>
    have hp := hc.segment_written p hseg
    exact .inr ⟨p.reader, p.entry.zoneMap, rfl, hp.rowIds, hp.vectors⟩

theorem Compacts.compactedFrom (hc : Compacts P d d₁ cat files segment)
    (hs : cat.StoredIn d.store)
    (hvalid : (compacted d d₁ ts files segment).Valid P (Catalog.fresh files segment))
    {after : Store} (hafter : (Catalog.fresh files segment).StoredIn after) :
    ∃ live, d.current.CompactedFrom P (compacted d d₁ ts files segment) d.store after live := by
  obtain ⟨live, hlive, hrows⟩ := hc.source.scan_full hs
  obtain ⟨live', hlive', hrows'⟩ := hvalid.scan_full hafter
  rw [hc.liveRows, ← hrows] at hrows'
  have hschema := (hc.source.scan_eq_ok hs hlive).2.1
  have hschema' := (hvalid.scan_eq_ok hafter hlive').2.1
  obtain rfl : live' = live := RecordBatch.ext' (hschema'.trans hschema.symm) hrows'
  refine ⟨live', hlive, hlive', rfl, fun request => ?_, fun r hr projection => ?_, ?_, ?_,
    hvalid.coversRow_disjoint⟩
  · rw [hvalid.scanQuery hafter, hc.source.scanQuery hs, hc.liveRows]
    rfl
  · rw [hvalid.lookupRow hafter, hc.source.lookupRow hs]
    exact hc.answerLookup (hrows ▸ hr) projection
  · rw [hrows]
    exact hc.index_cases
  · refine ⟨files.map Prod.snd, ?_, ?_⟩
    · show List.Forall₂ (RunStored after) (files.map Prod.fst) (files.map Prod.snd)
      rw [List.forall₂_map_left_iff, List.forall₂_map_right_iff, List.forall₂_same]
      intro f hf
      refine (hc.rows.fileValid f hf).runStored ?_ (hafter.files f hf)
      exact (hc.rows.runs.consecutive _ (List.mem_map_of_mem hf)).1
    · rw [hrows, List.map_map]
      exact hc.rows.runs

/-- A compaction publishes a version of the same schema that shows what its source shows,
or none. -/
theorem System.Inv.compact_cases {s s' : System} (hi : s.Inv P) {clock : Option ℕ}
    {faults : CompactionFaults} (hstep : (system P).step s (.compact clock faults) = some s') :
    (s'.dataset.current.schema = s.dataset.current.schema ∧
      ∃ live, s.dataset.current.CompactedFrom P s'.dataset.current s.dataset.store
        s'.dataset.store live) ∨ s'.dataset.current = s.dataset.current := by
  obtain ⟨_, cat, _, _, _, hv, _, hstored⟩ := hi.recorded.current_valid
  change lifecycleStep P s (.compact clock faults) = some s' at hstep
  simp only [lifecycleStep] at hstep
  split at hstep
  · cases hstep
    rcases hrun : publishCompaction P clock faults s.dataset with ⟨r, d⟩
    rcases publishCompaction_cases hv hstored hi.recorded.rowIds_le hi.recorded.latest.free hrun
      with ⟨d₁, ts, files, segment, hc, _, rfl, hvalid⟩ | ⟨_, hadv⟩
    · exact .inl ⟨rfl, hc.compactedFrom hstored hvalid (hc.storedIn.insert _)⟩
    · exact .inr hadv.current_eq
  · cases hstep

/-- Whenever a compaction publishes a version, it shows what its source shows. -/
theorem compaction_preserves {s s' : System} (h : (system P).Reachable s) {clock : Option ℕ}
    {faults : CompactionFaults} (hstep : (system P).step s (.compact clock faults) = some s')
    (hpub : s'.dataset.current.version ≠ s.dataset.current.version) :
    ∃ live, s.dataset.current.CompactedFrom P s'.dataset.current s.dataset.store
      s'.dataset.store live := by
  rcases (System.inv_of_reachable h).compact_cases hstep with ⟨-, hlive⟩ | hcurrent
  · exact hlive
  · exact absurd (congrArg Snapshot.version hcurrent) hpub

/-- Three rows, the middle one deleted. -/
def gapLabels : List Label :=
  insertLabels (idBatch [10, 20, 30]) ++ [.begin, .delete 1 1] ++ commitDeleteLabels 1 2

theorem compaction_preserves_gap :
    ∃ s s' live, plainRun idSchema gapLabels = some s ∧
      (system plainPlatform).step s (.compact (some 3) {}) = some s' ∧
      s.dataset.current.CompactedFrom plainPlatform s'.dataset.current s.dataset.store
        s'.dataset.store live ∧
      s'.dataset.current.manifest.dataFiles.map DataFileEntry.rowIdRange =
        [some (0, 0), some (2, 2)] := by
  have hrun : (plainRun idSchema gapLabels).bind (fun s =>
      (systemStep plainPlatform s (.compact (some 3) {})).map fun s' =>
        (s.dataset.current.version, s'.dataset.current.version,
          s'.dataset.current.manifest.dataFiles.map DataFileEntry.rowIdRange)) =
      some (2, 3, [some (0, 0), some (2, 2)]) := by
    decide +kernel
  obtain ⟨s, hs, hrun⟩ := Option.bind_eq_some_iff.mp hrun
  obtain ⟨s', hstep, hout⟩ := Option.map_eq_some_iff.mp hrun
  simp only [Prod.mk.injEq] at hout
  obtain ⟨hversion, hversion', hranges⟩ := hout
  obtain ⟨live, hlive⟩ := compaction_preserves (reachable_runOn hs) hstep (by omega)
  exact ⟨s, s', live, hs, hstep, hlive, hranges⟩

end StrataDB.Txn
