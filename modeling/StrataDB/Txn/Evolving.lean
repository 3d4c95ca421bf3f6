import StrataDB.Txn.Timestamps
import StrataDB.Txn.Allocation
import StrataDB.Txn.Widening

/-! A migration preserves everything but the schema. The version it publishes shows the
rows of its source with one more null, answers what it answered before about the other
columns, and refuses the transactions that began before it. Queries know fewer column
types than a migration accepts; a column of another type closes them. -/

namespace StrataDB.Txn

open Lib Arrow Index Storage Query

variable {P : Platform} {column : Field}

/-- `r'` is the row `r` of this schema, with null in one more column. -/
structure RowWidened (schema : Schema) (r r' : Row) : Prop where
  rowId : storedRowId r' = storedRowId r
  timestamp : storedTimestamp r' = storedTimestamp r
  old : ∀ k < schema.fields.length, Row.cell r' k = Row.cell r k
  new : Row.cell r' schema.fields.length = .null

theorem rowWidened_migratedRow {schema : Schema} {r : Row}
    (h : fitsFields (fullFields schema) r = true) : RowWidened schema r (migratedRow r) where
  rowId := storedRowId_migratedRow h
  timestamp := storedTimestamp_migratedRow h
  old _ hk := cell_migratedRow h hk
  new := cell_migratedRow_new h

/-- `out` on the store after it shows what `source` showed on the store before, with one
more column. -/
structure Snapshot.WidenedFrom (P : Platform) (column : Field) (source out : Snapshot)
    (before after : Store) (live : RecordBatch) : Prop where
  schema : out.schema = ⟨source.schema.fields ++ [column], source.schema.metadata⟩
  source_rows : source.scan P before (fullSchema source.schema) = .ok live
  out_rows : ∃ live', out.scan P after (fullSchema out.schema) = .ok live' ∧
    List.Forall₂ (RowWidened source.schema) live.rows live'.rows
  tombstones : out.tombstones = source.tombstones
  segments : out.index = source.index
  scan : ∀ requested : Schema, (∀ f ∈ requested.fields, f.name ≠ column.name) →
    out.scan P after requested = source.scan P before requested
  scanWithPredicate : ∀ (requested : Schema) (p : Predicate) (full result : RecordBatch),
    (∀ f ∈ requested.fields, f.name ≠ column.name) →
    (∀ r ∈ live.rows, p.All (LeafAgrees (fullSchema source.schema) r)) →
    source.scan P before requested = .ok full → filter full p = .ok result →
    out.scanWithPredicate P after requested p = source.scanWithPredicate P before requested p
  scanQuery : Queryable column → ∀ request : ScanRequest,
    request.projection.Avoids column.name →
    (∀ f ∈ request.filter, ¬ f.Mentions column.name) →
    out.scanQuery P after request = source.scanQuery P before request
  lookupRow : Queryable column → ∀ request : RowLookupRequest,
    request.projection.Avoids column.name →
    out.lookupRow P after request = source.lookupRow P before request
  groupByQuery : Queryable column → ∀ (F : FloatOps) (request : GroupByRequest),
    column.name ∉ request.groupBy → (∀ a ∈ request.aggregates, a.column ≠ column.name) →
    (∀ f ∈ request.filter, ¬ f.Mentions column.name) →
    out.groupByQuery P F after request = source.groupByQuery P F before request
  vectorSearchQuery : Queryable column → ∀ (D : Distances) (request : VectorSearchRequest),
    request.vectorColumn ≠ column.name → (∀ f ∈ request.filter, ¬ f.Mentions column.name) →
    (∀ p, request.hydration = .projection p → p.Avoids column.name) →
    out.vectorSearchQuery P D after request = source.vectorSearchQuery P D before request

theorem Widens.widenedFrom {s s' : Snapshot} {cat cat' : Catalog} {store store' : Store}
    (h : Widens P column s s' cat cat') (hs : cat.StoredIn store) (hs' : cat'.StoredIn store') :
    ∃ live, s.WidenedFrom P column s' store store' live := by
  obtain ⟨live, hlive, hrows⟩ := h.valid.scan_full hs
  obtain ⟨live', hlive', hrows'⟩ := h.valid'.scan_full hs'
  refine ⟨live, h.schema, hlive, ⟨live', hlive', ?_⟩, h.tombstones, h.index,
    fun requested hr => h.scan_eq hs hs' hr, fun requested p full result hr hagree hscan hfilter =>
      h.scanWithPredicate_eq hs hs' hr (hrows ▸ hagree) hscan hfilter,
    fun hq request hp hf => h.scanQuery_eq hq hs hs' hp hf,
    fun hq request hp => h.lookupRow_eq hq hs hs' hp,
    fun hq F request hkeys hinputs hf => h.groupByQuery_eq hq hs hs' hkeys hinputs hf,
    fun hq D request hcol hf hp => h.vectorSearchQuery_eq hq hs hs' hcol hf hp⟩
  rw [hrows', hrows, h.liveRows_eq, List.forall₂_map_right_iff, List.forall₂_same]
  exact fun r hr => rowWidened_migratedRow (h.fits (List.mem_of_mem_filter hr))

namespace System

variable {s s' : System}

theorem Inv.migrate_cases (hi : s.Inv P) {migration : SchemaMigration} {clock : Option ℕ}
    {faults : MigrationFaults}
    (hstep : (system P).step s (.migrate migration clock faults) = some s')
    (hpub : s'.dataset.current.version ≠ s.dataset.current.version) :
    ∃ column live, migration =
        .addNullableColumn initialSchemaVersion addNullableColumnSchemaVersion column ∧
      s.dataset.current.manifest.effectiveSchemaVersion = initialSchemaVersion ∧
      s'.dataset.current.manifest.effectiveSchemaVersion = addNullableColumnSchemaVersion ∧
      s.dataset.current.WidenedFrom P column s'.dataset.current s.dataset.store
        s'.dataset.store live := by
  obtain ⟨_, cat, _, _, _, hv, _, hstored⟩ := hi.recorded.current_valid
  change lifecycleStep P s (.migrate migration clock faults) = some s' at hstep
  simp only [lifecycleStep] at hstep
  split at hstep
  · cases hstep
    rcases hrun : migrateSchema P migration clock faults s.dataset with ⟨r, d⟩
    rw [hrun] at hpub
    rcases migrateSchema_cases hv hstored hi.recorded.latest.free hrun with
      ⟨d₁, column, ts, cat', hm, _, hmig, rfl, hvalid, _⟩ | ⟨_, hadv⟩
    · obtain ⟨live, hlive⟩ := (hm.widens hvalid).widenedFrom hstored (hm.stored.insert _)
      exact ⟨column, live, hmig, hm.schemaVersion, rfl, hlive⟩
    · exact absurd (congrArg Snapshot.version hadv.current_eq) hpub
  · cases hstep

/-- The version a transaction began on, if it is not above a recorded state's, is in
that state's record. -/
theorem Inv.base_mem (hi : s.Inv P) {labels : List Label}
    (hrun : (system P).run s labels = some s') (hi' : s'.Inv P) {g : Publication}
    (hg : g ∈ s'.history) (hle : g.snapshot.version ≤ s.dataset.current.version) :
    g ∈ s.history := by
  have hlt : g.snapshot.version < s.history.length := by
    rw [hi.recorded.length_eq]
    omega
  have hget : s.history[g.snapshot.version]? = some s.history[g.snapshot.version] :=
    List.getElem?_eq_getElem hlt
  have hversion := hi.recorded.chain.version hget
  have hmem : s.history[g.snapshot.version] ∈ s.history := List.getElem_mem hlt
  rwa [← hi'.recorded.eq_of_version (hi.history_prefix hrun _ hmem) hg hversion]

/-- A transaction whose base has another schema version is refused before anything is
written. -/
theorem publish_of_schemaVersion {id : ℕ} {t : Transaction} {stage : Stage} {fault : Fault}
    (htxn : s.txns[id]? = some ⟨t, stage⟩)
    (hne : s.dataset.current.manifest.effectiveSchemaVersion ≠
      t.base.manifest.effectiveSchemaVersion)
    (hstep : (system P).step s (.publish id fault) = some s') :
    s'.txns[id]? = some ⟨t, .finished (.error (.storage (.schemaVersionChanged
        t.base.manifest.effectiveSchemaVersion
        s.dataset.current.manifest.effectiveSchemaVersion)))⟩ ∧
      s'.dataset = s.dataset ∧ s'.history = s.history := by
  have hcheck : checkCommit s.dataset.log s.dataset.current t = .error (.storage
      (.schemaVersionChanged t.base.manifest.effectiveSchemaVersion
        s.dataset.current.manifest.effectiveSchemaVersion)) := by
    rw [checkCommit, ensure, if_neg hne]
    rfl
  have hlt : id < s.txns.length := (List.getElem?_eq_some_iff.mp htxn).1
  change commitPart P s id (.publish id fault) = some s' at hstep
  simp only [commitPart, htxn] at hstep
  split at hstep
  · rename_i heq
    cases heq
    have hrun : ∀ ts files segment, publishCommit P t ts files segment fault s.dataset =
        (.error (.storage (.schemaVersionChanged t.base.manifest.effectiveSchemaVersion
          s.dataset.current.manifest.effectiveSchemaVersion)), s.dataset) := by
      intro ts files segment
      rw [publishCommit, Effect.reads_bind, Effect.bind_apply, Effect.lift_apply, id_eq, hcheck]
    rw [hrun] at hstep
    cases hstep
    exact ⟨List.getElem?_set_self hlt, rfl, if_pos rfl⟩
  · cases hstep

end System

/-- A migration that publishes a version adds one nullable column to what its source
shows. Whatever happens after it, a transaction that began on the source or before it
ends its commit with `SchemaVersionChanged` and publishes nothing. -/
theorem migration_preserves {s s₁ : System} (h : (system P).Reachable s)
    {migration : SchemaMigration} {clock : Option ℕ} {faults : MigrationFaults}
    (hstep : (system P).step s (.migrate migration clock faults) = some s₁)
    (hpub : s₁.dataset.current.version ≠ s.dataset.current.version) :
    (∃ column live, migration =
        .addNullableColumn initialSchemaVersion addNullableColumnSchemaVersion column ∧
      s.dataset.current.WidenedFrom P column s₁.dataset.current s.dataset.store
        s₁.dataset.store live) ∧
    ∀ (labels : List Label) (s₂ s₃ : System) (id : ℕ) (t : Transaction) (stage : Stage)
      (fault : Fault), (system P).run s₁ labels = some s₂ →
      s₂.txns[id]? = some ⟨t, stage⟩ → t.base.version ≤ s.dataset.current.version →
      (system P).step s₂ (.publish id fault) = some s₃ →
      s₃.txns[id]? = some ⟨t, .finished (.error (.storage (.schemaVersionChanged
          t.base.manifest.effectiveSchemaVersion
          s₂.dataset.current.manifest.effectiveSchemaVersion)))⟩ ∧
        s₃.dataset = s₂.dataset ∧ s₃.history = s₂.history := by
  have hi := System.inv_of_reachable h
  have hreach₁ : (system P).Reachable s₁ := h.step hstep
  obtain ⟨column, live, hmig, hsource, htarget, hwidened⟩ := hi.migrate_cases hstep hpub
  refine ⟨⟨column, live, hmig, hwidened⟩, ?_⟩
  intro labels s₂ s₃ id t stage fault hrun htxn hbase hpublish
  have hi₁ := System.inv_of_reachable hreach₁
  have hi₂ := System.inv_of_reachable (hreach₁.run hrun)
  refine System.publish_of_schemaVersion htxn ?_ hpublish
  -- the base is in the record of the source, the target in that of every later state
  obtain ⟨g, hg, hsnap⟩ := (hi₂.txns _ (List.mem_of_getElem? htxn)).base
  have hg₀ : g ∈ s.history := by
    have hrun' : (system P).run s (.migrate migration clock faults :: labels) = some s₂ := by
      rw [TransitionSystem.run, hstep]
      exact hrun
    refine hi.base_mem hrun' hi₂ hg ?_
    rw [hsnap]
    exact hbase
  obtain ⟨last, hlast, hcurrent, -⟩ := hi.recorded.current
  obtain ⟨last₁, hlast₁, hcurrent₁, -⟩ := hi₁.recorded.current
  obtain ⟨last₂, hlast₂, hcurrent₂, -⟩ := hi₂.recorded.current
  have hle := (hi.recorded.chain.le_last hlast hg₀).2.2.1
  have hmem₁ := hi₁.history_prefix hrun last₁ (List.mem_of_getLast? hlast₁)
  have hle₂ := (hi₂.recorded.chain.le_last hlast₂ hmem₁).2.2.1
  simp only [Publication.schemaVersion, hsnap, hcurrent, hcurrent₁, hcurrent₂, hsource,
    htarget] at hle hle₂
  rw [initialSchemaVersion] at hle
  rw [addNullableColumnSchemaVersion] at hle₂
  intro heq
  omega

/-- A row of one text three times over, so that the column is stored as a dictionary. -/
def nameSchema : Schema := ⟨[Field.new "id" .int64 false, Field.new "name" .utf8 false], []⟩

def nameLabels : List Label :=
  insertLabels (batchOf nameSchema [[.int64 1, .utf8 "a"], [.int64 2, .utf8 "a"],
    [.int64 3, .utf8 "a"]])

def addColumn (dataType : DataType) : Label :=
  .migrate (.addNullableColumn 1 2 (Field.new "extra" dataType true)) (some 2) {}

/-- One transaction inserts a row and commits, a second begins before the migration and
commits after it. -/
theorem migration_preserves_late :
    ∃ s s₁ s₂ s₃ live, plainRun idSchema (insertLabels (idBatch [10]) ++
        [.begin, .insert 1 (idBatch [20])]) = some s ∧
      (system plainPlatform).step s (addColumn .utf8) = some s₁ ∧
      (system plainPlatform).run s₁ ((commitLabels 1 3).take 5) = some s₂ ∧
      (system plainPlatform).step s₂ (.publish 1 .none) = some s₃ ∧
      s.dataset.current.WidenedFrom plainPlatform (Field.new "extra" .utf8 true)
        s₁.dataset.current s.dataset.store s₁.dataset.store live ∧
      live.rows.map storedRowId = [0] ∧ s₃.dataset = s₂.dataset ∧ s₃.history = s₂.history := by
  have hrun : (plainRun idSchema (insertLabels (idBatch [10]) ++
        [.begin, .insert 1 (idBatch [20])])).bind (fun s =>
      (systemStep plainPlatform s (addColumn .utf8)).bind fun s₁ =>
        ((system plainPlatform).run s₁ ((commitLabels 1 3).take 5)).bind fun s₂ =>
          (systemStep plainPlatform s₂ (.publish 1 .none)).bind fun s₃ =>
            s₂.txns[1]?.bind fun t =>
              (s.dataset.current.scan plainPlatform s.dataset.store
                (fullSchema s.dataset.current.schema)).toOption.map fun live =>
                (s.dataset.current.version, s₁.dataset.current.version, t.txn.base.version,
                  live.rows.map storedRowId)) = some (1, 2, 1, [0]) := by
    decide +kernel
  obtain ⟨s, hs, hrun⟩ := Option.bind_eq_some_iff.mp hrun
  obtain ⟨s₁, hs₁, hrun⟩ := Option.bind_eq_some_iff.mp hrun
  obtain ⟨s₂, hs₂, hrun⟩ := Option.bind_eq_some_iff.mp hrun
  obtain ⟨s₃, hs₃, hrun⟩ := Option.bind_eq_some_iff.mp hrun
  obtain ⟨t, ht, hrun⟩ := Option.bind_eq_some_iff.mp hrun
  obtain ⟨live, hlive, hout⟩ := Option.map_eq_some_iff.mp hrun
  simp only [Prod.mk.injEq] at hout
  obtain ⟨hversion, hversion₁, hbase, hids⟩ := hout
  obtain ⟨⟨column, live', hmig, hwidened⟩, hlate⟩ :=
    migration_preserves (reachable_runOn hs) hs₁ (by omega)
  cases hmig
  obtain ⟨-, hdataset, hhistory⟩ := hlate _ s₂ s₃ 1 t.txn t.stage .none hs₂ ht (by omega) hs₃
  have hsame := hwidened.source_rows
  rw [toOption_eq_some.mp hlive] at hsame
  cases hsame
  exact ⟨s, s₁, s₂, s₃, live, hs, hs₁, hs₂, hs₃, hwidened, hids, hdataset, hhistory⟩

/-- Queries do not know 32-bit integers: once such a column is there, a query that does
not name it is refused. And a predicate that no row can be asked is answered as long as
the statistics of a text column leave every file out; the migration does not keep those
of a dictionary. -/
theorem migration_closes_queries :
    (∃ s s₁, plainRun idSchema (insertLabels (idBatch [10])) = some s ∧
      (system plainPlatform).step s (addColumn .int32) = some s₁ ∧
      s₁.dataset.current.version ≠ s.dataset.current.version ∧
      (s.dataset.current.scanQuery plainPlatform s.dataset.store
        ⟨.columns ["id"], none⟩).isOk = true ∧
      (s₁.dataset.current.scanQuery plainPlatform s₁.dataset.store
        ⟨.columns ["id"], none⟩).isOk = false) ∧
    ∃ s s₁, plainRun nameSchema nameLabels = some s ∧
      (system plainPlatform).step s (addColumn .utf8) = some s₁ ∧
      s₁.dataset.current.version ≠ s.dataset.current.version ∧
      (s.dataset.current.scanWithPredicate plainPlatform s.dataset.store nameSchema
        (.and (.eq "name" (.utf8 "b")) (.eq "id" (.utf8 "b")))).isOk = true ∧
      (s₁.dataset.current.scanWithPredicate plainPlatform s₁.dataset.store nameSchema
        (.and (.eq "name" (.utf8 "b")) (.eq "id" (.utf8 "b")))).isOk = false := by
  constructor
  · have hrun : (plainRun idSchema (insertLabels (idBatch [10]))).bind (fun s =>
        (systemStep plainPlatform s (addColumn .int32)).map fun s₁ =>
          (s₁.dataset.current.version, s.dataset.current.version,
            (s.dataset.current.scanQuery plainPlatform s.dataset.store
              ⟨.columns ["id"], none⟩).isOk,
            (s₁.dataset.current.scanQuery plainPlatform s₁.dataset.store
              ⟨.columns ["id"], none⟩).isOk)) = some (2, 1, true, false) := by
      decide +kernel
    obtain ⟨s, hs, hrun⟩ := Option.bind_eq_some_iff.mp hrun
    obtain ⟨s₁, hs₁, hout⟩ := Option.map_eq_some_iff.mp hrun
    simp only [Prod.mk.injEq] at hout
    obtain ⟨hversion₁, hversion, hbefore, hafter⟩ := hout
    exact ⟨s, s₁, hs, hs₁, by omega, hbefore, hafter⟩
  · have hrun : (plainRun nameSchema nameLabels).bind (fun s =>
        (systemStep plainPlatform s (addColumn .utf8)).map fun s₁ =>
          (s₁.dataset.current.version, s.dataset.current.version,
            (s.dataset.current.scanWithPredicate plainPlatform s.dataset.store nameSchema
              (.and (.eq "name" (.utf8 "b")) (.eq "id" (.utf8 "b")))).isOk,
            (s₁.dataset.current.scanWithPredicate plainPlatform s₁.dataset.store nameSchema
              (.and (.eq "name" (.utf8 "b")) (.eq "id" (.utf8 "b")))).isOk)) =
        some (2, 1, true, false) := by
      decide +kernel
    obtain ⟨s, hs, hrun⟩ := Option.bind_eq_some_iff.mp hrun
    obtain ⟨s₁, hs₁, hout⟩ := Option.map_eq_some_iff.mp hrun
    simp only [Prod.mk.injEq] at hout
    obtain ⟨hversion₁, hversion, hbefore, hafter⟩ := hout
    exact ⟨s, s₁, hs, hs₁, by omega, hbefore, hafter⟩

end StrataDB.Txn
