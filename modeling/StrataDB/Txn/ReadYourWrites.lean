import StrataDB.Txn.Allocation
import StrataDB.Txn.Overlaying

/-! A transaction reads its own writes: what a scan inside it shows is what the version
shows that it publishes, if no other version comes in between. The two compute it from
different objects: one from the files of the base and the staged batches, the other from
the files that the commit has written. -/

namespace StrataDB.Txn

open Lib Arrow Index Storage Query

variable {P : Platform} {s s' : System} {t : Transaction} {cat : Catalog} {store : Store}

/-- The staged rows keep their logical cells when they are stored. -/
theorem logicalCells_stagedRows {schema : Schema} {rows : List Row}
    (h : ∀ r ∈ rows, fitsFields schema.fields r = true) (base : ℕ) (ts : ℤ) :
    (stagedRows rows base ts).map (logicalCells schema) = rows := by
  rw [stagedRows, List.map_map]
  conv_rhs => rw [← List.zipIdx_map_fst base rows]
  refine List.map_congr_left fun p hp => ?_
  exact logicalCells_append (fitsFields_length (h p.1 (List.fst_mem_of_mem_zipIdx hp))) _

/-- A scan inside a transaction shows the live rows of its base that it has not staged
for removal, then the staged ones; the ids they get do not matter. -/
theorem Transaction.scanQuery_eq (hst : t.Staged) (hv : t.base.Valid P cat)
    (hs : cat.StoredIn store) (base : ℕ) (ts : ℤ) (request : ScanRequest) :
    t.scanQuery P store request = t.base.answerScan
      (cat.keptRows t.base t.writeSet ++ stagedRows t.rows base ts) request := by
  have hschema : ∀ b ∈ t.pending, b.schema = t.base.schema := fun b hb => by
    rw [hst.batches b hb, hst.schema_eq]
  have hfits : ∀ r ∈ t.rows, fitsFields t.base.schema.fields r = true := by
    intro r hr
    obtain ⟨b, hb, hr⟩ := List.mem_flatMap.mp hr
    rw [← hschema b hb]
    exact b.fits r hr
  obtain ⟨batches, hbatches, ho⟩ := Transaction.overlayBatches_eq_ok hv hs hschema
    (logicalCells_stagedRows hfits base ts).symm
  rw [Transaction.scanQuery, hbatches, engine_ok, ok_bind, ho.scanQueryOverlay hv.wellNamed,
    hst.tombstones_eq]

/-- The objects of a transaction's base stay as they are while it is alive. -/
theorem System.Inv.base_valid {s₀ : System} (h₀ : s₀.Inv P) {labels : List Label}
    (hrun : (system P).run s₀ labels = some s) (h : s.Inv P) {id : ℕ} {stage₀ stage : Stage}
    (ht₀ : s₀.txns[id]? = some ⟨t, stage₀⟩) (halive₀ : stage₀.alive = true)
    (ht : s.txns[id]? = some ⟨t, stage⟩) (halive : stage.alive = true) :
    ∃ cat, t.base.Valid P cat ∧ cat.StoredIn s₀.dataset.store ∧
      cat.StoredIn s.dataset.store := by
  have hheld : ∀ {u : System} {st : Stage}, u.txns[id]? = some ⟨t, st⟩ → st.alive = true →
      t.base ∈ u.dataset.current :: u.held := fun hu hst =>
    List.mem_cons_of_mem _ (mem_held.mpr (.inr ⟨_, List.mem_of_getElem? hu, hst, rfl⟩))
  obtain ⟨g, hg, hbase, hlive⟩ := h₀.live_mem (hheld ht₀ halive₀)
  obtain ⟨cat, hv, hstored⟩ := h₀.recorded.valid_of_mem hg
  have hlive' : g.snapshot.version ∈ s.live := by
    rw [hbase]
    obtain ⟨g', -, hbase', hlive'⟩ := h.live_mem (hheld ht halive)
    rwa [hbase'] at hlive'
  refine ⟨cat, hbase ▸ hv, (h₀.kept g hg hlive).storedIn hv hstored, ?_⟩
  exact (h.kept g (h₀.history_prefix hrun g hg) hlive').storedIn hv hstored

theorem Snapshot.answerScan_congr {b b' : Snapshot} (h : b.schema = b'.schema) (rows : List Row)
    (request : ScanRequest) : b.answerScan rows request = b'.answerScan rows request := by
  rw [Snapshot.answerScan, Snapshot.answerScan, Snapshot.querySchema, Snapshot.querySchema, h]

/-- A publication on top of the transaction's own base shows what the transaction read. -/
theorem Commits.scanQuery {d : Dataset} {ts : ℤ} {attempt base : ℕ}
    {files : List (DataFileEntry × RecordBatch)} {inserts : List VectorInsert}
    {segment : Option PublishedSegment}
    (hc : Commits P d cat t ts attempt base files inserts segment)
    (hvalid : (committed d t ts files segment).Valid P (cat.extend files segment))
    (hs : (cat.extend files segment).StoredIn store) (hbase : t.base = d.current)
    (request : ScanRequest) :
    (committed d t ts files segment).scanQuery P store request = t.base.answerScan
      (cat.keptRows t.base t.writeSet ++ stagedRows t.rows base ts) request := by
  rw [hvalid.scanQuery hs, hc.liveRows, hbase]
  exact Snapshot.answerScan_congr hc.schema_eq _ _

/-- Whatever a transaction has staged, a scan inside it shows what the version it
publishes shows, unless another version was published in between. With nothing staged it
shows what its base shows. -/
theorem scan_reads_own_writes {s₀ : System} (hreach : (system P).Reachable s₀) {id : ℕ}
    {stage₀ : Stage} (ht₀ : s₀.txns[id]? = some ⟨t, stage₀⟩) (halive : stage₀.alive = true)
    (request : ScanRequest) :
    (∀ labels s stage fault s', (system P).run s₀ labels = some s →
      s.txns[id]? = some ⟨t, stage⟩ → (system P).step s (.publish id fault) = some s' →
      s'.dataset.current.version ≠ s.dataset.current.version →
      t.base.version = s.dataset.current.version →
      t.scanQuery P s₀.dataset.store request =
        s'.dataset.current.scanQuery P s'.dataset.store request) ∧
    (t.pending = [] → t.pendingTombstones = [] →
      t.scanQuery P s₀.dataset.store request =
        t.base.scanQuery P s₀.dataset.store request) := by
  have h₀ := System.inv_of_reachable hreach
  have hst := (h₀.txns _ (List.mem_of_getElem? ht₀)).staged
  constructor
  · intro labels s stage fault s' hrun ht hstep hpub hbase
    have h := System.inv_of_reachable (hreach.run hrun)
    change systemStep P s (.publish id fault) = some s' at hstep
    rcases (System.Move.of_step hstep).commit_cases rfl with
      ⟨_, txn, _, _, next, _, _, _, hadv, _, _, rfl⟩ |
      ⟨txn, ts, claim, entries, segment, fault, r, d, hid, _, hpublish, rfl⟩
    · have hcur := (System.commitStep_advances s id txn next hadv).2.current_eq
      exact absurd (congrArg Snapshot.version hcur) hpub
    · rw [hid] at ht
      cases ht
      rcases h.publishCommit_effect hid hpublish with
        ⟨cat, attempt, files, inserts, hc, hstored, rfl, hvalid, hnew⟩ | rfl
      · obtain ⟨cat₀, hv₀, hstored₀, hstored'⟩ :=
          h₀.base_valid hrun h ht₀ halive hid rfl
        have hcurrent : t.base = s.dataset.current := by
          obtain ⟨g, hg, hgbase⟩ := (h.txns _ (List.mem_of_getElem? hid)).base
          obtain ⟨g', hg', hgcur⟩ := h.current_mem
          rw [← hgbase, ← hgcur] at hbase ⊢
          rw [h.recorded.eq_of_version hg hg' hbase]
        have hlatest : t.base.Valid P cat := hcurrent ▸ hc.latest
        rw [Transaction.scanQuery_eq hst hv₀ hstored₀ (rowIdBase claim) ts, Catalog.keptRows,
          hv₀.liveRows_unique hlatest hstored' hstored]
        exact (hc.scanQuery hvalid hnew hcurrent request).symm
      · exact absurd rfl hpub
  · intro hpending htombstones
    have hnone : (system P).run s₀ [] = some s₀ := rfl
    obtain ⟨cat, hv, hstored, -⟩ := h₀.base_valid hnone h₀ ht₀ halive ht₀ halive
    rw [Transaction.scanQuery_eq hst hv hstored 0 0, hv.scanQuery hstored, Catalog.keptRows,
      ← hst.tombstones_eq, htombstones, Transaction.rows, hpending]
    simp [stagedRows]

/-- Three rows; a transaction replaces the first one, deletes the second and adds one. -/
def restageLabels : List Label :=
  insertLabels (idBatch [10, 20, 30]) ++
    [.begin, .update 1 0 (idBatch [11]), .delete 1 1, .insert 1 (idBatch [40])]

/-- Operations may still be staged. -/
def Stage.isStaging : Stage → Bool
  | .staging => true
  | _ => false

theorem scan_reads_own_writes_restage :
    ∃ s₀ s s' t, plainRun idSchema restageLabels = some s₀ ∧
      s₀.txns[1]? = some ⟨t, .staging⟩ ∧
      (system plainPlatform).run s₀ (commitLabels 1 2).dropLast = some s ∧
      (system plainPlatform).step s (.publish 1 .none) = some s' ∧
      t.scanQuery plainPlatform s₀.dataset.store ⟨.all, none⟩ =
        s'.dataset.current.scanQuery plainPlatform s'.dataset.store ⟨.all, none⟩ ∧
      t.scanQuery plainPlatform s₀.dataset.store ⟨.all, none⟩ =
        .ok ⟨["id"], [⟨[⟨"id", .int64 30⟩]⟩, ⟨[⟨"id", .int64 11⟩]⟩, ⟨[⟨"id", .int64 40⟩]⟩]⟩ := by
  have hrun : (plainRun idSchema restageLabels).bind (fun s₀ =>
      (s₀.txns[1]?).bind fun u => ((system plainPlatform).run s₀ (commitLabels 1 2).dropLast).bind
        fun s => (systemStep plainPlatform s (.publish 1 .none)).map fun s' =>
          (decide (s'.dataset.current.version ≠ s.dataset.current.version ∧
            u.txn.base.version = s.dataset.current.version ∧
            (s.txns[1]?).map TxnState.txn = some u.txn),
            u.stage.isStaging,
            (u.txn.scanQuery plainPlatform s₀.dataset.store ⟨.all, none⟩).toOption)) =
      some (true, true, some ⟨["id"], [⟨[⟨"id", .int64 30⟩]⟩, ⟨[⟨"id", .int64 11⟩]⟩,
        ⟨[⟨"id", .int64 40⟩]⟩]⟩) := by
    decide +kernel
  obtain ⟨s₀, hs₀, hrun⟩ := Option.bind_eq_some_iff.mp hrun
  obtain ⟨u, hu, hrun⟩ := Option.bind_eq_some_iff.mp hrun
  obtain ⟨s, hs, hrun⟩ := Option.bind_eq_some_iff.mp hrun
  obtain ⟨s', hs', hout⟩ := Option.map_eq_some_iff.mp hrun
  simp only [Prod.mk.injEq, decide_eq_true_eq] at hout
  obtain ⟨⟨hpub, hbase, htxn⟩, hstaging, hscan⟩ := hout
  obtain ⟨u', hu', htxn⟩ := Option.map_eq_some_iff.mp htxn
  obtain ⟨t, stage⟩ := u
  obtain ⟨t', stage'⟩ := u'
  dsimp only at htxn hstaging
  subst htxn
  unfold Stage.isStaging at hstaging
  split at hstaging
  · exact ⟨s₀, s, s', t', hs₀, hu, hs, hs', (scan_reads_own_writes (reachable_runOn hs₀) hu rfl
      ⟨.all, none⟩).1 _ s stage' .none s' hs hu' hs' hpub hbase, toOption_eq_some.mp hscan⟩
  · cases hstaging

end StrataDB.Txn
