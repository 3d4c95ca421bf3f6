import StrataDB.Txn.Moves
import StrataDB.Txn.Plans
import StrataDB.Txn.Steps

/-! Publications, deletions and reopening keep the invariant, so that it holds in
every reachable state. -/

namespace StrataDB.Txn.System

open Lib Arrow Index Storage

variable {P : Platform} {s s' : System}

/-! ### Commits -/

section

variable {id : ℕ} {txn : Transaction} {ts : ℤ} {claim : Option (ℕ × RowIdRange)}
  {entries : List DataFileEntry} {segment : Option PublishedSegment} {attempt : ℕ}
  {files : List (DataFileEntry × RecordBatch)} {inserts : List VectorInsert} {cat : Catalog}

variable {d : Dataset}

theorem claims_of_staged {hs : List Publication}
    (hsound : TxnState.Sound P d hs ⟨txn, .prepared ts claim entries segment⟩)
    (hnil : claim = none → txn.pending = []) {i : ℕ} (hle : rowIdBase claim ≤ i)
    (hlt : i < rowIdBase claim + txn.rows.length) :
    TxnState.Claims ⟨txn, .prepared ts claim entries segment⟩ i := by
  cases claim with
  | none =>
    rw [Transaction.rows, hnil rfl] at hlt
    exact absurd hle (Nat.not_le.mpr hlt)
  | some c =>
    refine ⟨c.2, rfl, hle, ?_⟩
    rw [(hsound.range c.2 rfl).1]
    exact hlt

/-- A prepared transaction that passes the checks under the lock can be committed. -/
theorem Inv.commits (h : Inv P s)
    (hid : s.txns[id]? = some ⟨txn, .prepared ts claim entries segment⟩)
    (hprep : Prepared P txn ts attempt (rowIdBase claim) files inserts segment)
    (hnil : claim = none → txn.pending = []) (hclaim : ∀ c ∈ claim, c.1 = attempt)
    (hv : s.dataset.current.Valid P cat)
    (hcheck : checkCommit s.dataset.log s.dataset.current txn = .ok ())
    (hdim : checkSegmentDimension s.dataset.current segment = .ok ()) :
    Commits P s.dataset cat txn ts attempt (rowIdBase claim) files inserts segment := by
  have hsound := h.txns _ (List.mem_of_getElem? hid)
  obtain ⟨hschema, _, hlive⟩ := checkCommit_eq_ok.mp hcheck
  obtain ⟨last, hlast, hcur, _⟩ := h.recorded.current
  obtain ⟨g, hg, hbase⟩ := hsound.base
  have hcurmem := List.mem_of_getLast? hlast
  refine ⟨hv, hsound.staged, hprep, fun hne => ?_, ?_, hlive, hdim, h.recorded.attempts_le,
    h.recorded.rowIds_le⟩
  · cases hc : claim with
    | none => exact absurd (hnil hc) hne
    | some c =>
      subst hc
      obtain rfl := hclaim c rfl
      obtain ⟨hlen, hle⟩ := hsound.range c.2 rfl
      refine ⟨hsound.attempt_lt c.1 rfl, hcur ▸ hsound.names c.1 rfl last hcurmem, ?_, ?_⟩
      · rw [← hlen]
        exact hle
      · intro i hi hlt
        rw [← hcur]
        exact hsound.ids i (claims_of_staged hsound hnil hi hlt) last hcurmem
  · have hsame := (h.recorded.chain.le_last hlast hg).2.2.2
    rw [Publication.schemaVersion, Publication.schemaVersion, hbase, hcur] at hsame
    rw [hsound.staged.schema_eq]
    exact hsame hschema.symm

/-- What one transaction publishes is apart from what another one uses. -/
theorem Inv.sound_published (h : Inv P s)
    (hid : s.txns[id]? = some ⟨txn, .prepared ts claim entries segment⟩)
    (hc : Commits P s.dataset cat txn ts attempt (rowIdBase claim) files inserts segment)
    (hnil : claim = none → txn.pending = []) (hclaim : ∀ c ∈ claim, c.1 = attempt)
    (hvalid : (committed s.dataset txn ts files segment).Valid P (cat.extend files segment))
    {j : ℕ} {u : TxnState} (hj : j ≠ id) (hu : s.txns[j]? = some u) (event : Event) :
    u.Sound P (s.dataset.published (committed s.dataset txn ts files segment) txn.writeSet)
      (s.history ++ [Recorded.publication event s.dataset (committed s.dataset txn ts files segment)
        txn.writeSet]) := by
  have hother := h.txns u (List.mem_of_getElem? hu)
  have hself := h.txns _ (List.mem_of_getElem? hid)
  have hdisj := h.apart id j _ u hj.symm hid hu
  obtain ⟨g, hg, hcur⟩ := h.current_mem
  refine hother.publish (fun a ha n hn => ?_) fun i hi => ?_
  · rcases List.mem_append.mp (hc.objectNames_perm.mem_iff.mp hn) with hn | hn
    · exact hother.names a ha g hg n (hcur ▸ hn)
    · rw [hc.prepared.names n hn]
      rintro hsame
      obtain rfl := Option.some.inj hsame
      cases hcl : claim with
      | none =>
        obtain ⟨rfl, rfl⟩ := hc.prepared.nil (hnil hcl)
        simp at hn
      | some c =>
        refine hdisj.attempts attempt ?_ ha
        rw [hcl, ← hclaim c hcl]
        rfl
  · by_contra hown
    have hmem := hvalid.ownsRow_iff.mp (Bool.eq_true_of_not_eq_false hown)
    rw [Catalog.extend_rowIds, List.mem_append] at hmem
    rcases hmem with hmem | hmem
    · have := hother.ids i hi g hg
      rw [hcur, hc.latest.ownsRow_iff.mpr hmem] at this
      cases this
    · rw [hc.prepared.rowIds, List.mem_range'_1] at hmem
      exact hdisj.ids i (claims_of_staged hself hnil hmem.1 hmem.2) hi

theorem Inv.publishCommit (h : Inv P s)
    (hid : s.txns[id]? = some ⟨txn, .prepared ts claim entries segment⟩) {fault : Fault}
    {r : Except TxnError Unit}
    (hrun : publishCommit P txn ts entries segment fault s.dataset = (r, d)) :
    Inv P { s with
      dataset := d
      txns := s.txns.set id ⟨txn, .finished r⟩
      history := s.record d (txn.event id (rowIdBase claim) ts) } := by
  have hsound := h.txns _ (List.mem_of_getElem? hid)
  obtain ⟨attempt, files, inserts, rfl, hfiles, hsegment, hprep, hnil, hclaim⟩ := hsound.written
  obtain ⟨last, cat, hlast, hcur, hlastmem, hv, hshown, hstored⟩ := h.recorded.current_valid
  rcases publishCommit_cases h.recorded.latest.free hrun with
    ⟨hvisible, rfl, hdec, hcheck, hdim, _⟩ | ⟨⟨e, rfl, hdef⟩, rfl⟩
  · have hc := h.commits hid hprep hnil hclaim hv hcheck hdim
    rw [record_published rfl]
    have hsucc : Successor P s.history last (Recorded.publication
        (txn.event id (rowIdBase claim) ts) s.dataset (committed s.dataset txn ts files segment)
        txn.writeSet) :=
      hc.successor hcur hshown hstored hfiles hsegment
        (fun i hle hlt => hsound.ids i (claims_of_staged hsound hnil hle hlt)) hdec
    refine h.publish (.refl (fun _ => False) _) (fun _ _ _ _ hn => hn) hlast hsucc rfl le_rfl
      le_rfl rfl ?_ (h.apart.set fun j u _ _ => ⟨.of_not_preparing rfl u,
        (TxnState.Disjoint.of_not_preparing rfl u).symm⟩)
      (h.outcomes.publish hid rfl rfl hvisible ?_) ?_ ?_ ?_
    · intro u hu
      obtain ⟨j, hj⟩ := List.mem_iff_getElem?.mp hu
      rcases getElem?_set_cases hj with ⟨_, rfl⟩ | ⟨hne, hj⟩
      · obtain ⟨g, hg, hbase⟩ := hsound.base
        exact .of_not_preparing rfl hsound.staged ⟨g, List.mem_append_left _ hg, hbase⟩
      · exact h.sound_published hid hc hnil hclaim (hc.valid hdec) hne hj _
    · obtain ⟨g, hg, hbase⟩ := hsound.base
      have := h.recorded.version_le hg
      rw [hbase] at this
      exact Nat.lt_succ_of_le this
    · intro u hu halive
      rcases List.mem_or_eq_of_mem_set hu with hu | rfl
      · exact hu
      · cases halive
    · intro hbusy
      rw [h.idle hid rfl] at hbusy
      cases hbusy
    · have := h.idle hid rfl
      cases hexec : s.executor with
      | idle => rfl
      | compacted => rfl
      | deleting rest => rw [hexec] at this; cases this
  · rw [record_of_current_eq rfl]
    exact h.update hid rfl (.refl (fun _ => False) _) (fun _ hn => hn.elim) rfl
      (.of_not_preparing rfl hsound.staged hsound.base) (fun _ u _ _ => .of_not_preparing rfl u)
      (fun hp => by cases hp) fun outcome version ho => by
        cases ho
        exact hdef.not_visible version

end

/-! ### Compaction and migration -/

theorem quiet_iff :
    s.quiet = true ↔ s.executor.isIdle = true ∧ ∀ t ∈ s.txns, t.stage.preparing = false := by
  simp [quiet]

variable {d : Dataset} {clock : Option ℕ} {key : Key} {fault : Fault} {r : Except TxnError Unit}
  {schema : Schema} {capacity : ℕ} {label : Label}

/-- While nothing is in preparation every transaction stays sound. -/
theorem Inv.quiet_published (h : Inv P s) (hquiet : ∀ t ∈ s.txns, t.stage.preparing = false)
    {new : Publication} : ∀ t ∈ s.txns, t.Sound P d (s.history ++ [new]) := by
  intro t ht
  obtain ⟨g, hg, hbase⟩ := (h.txns t ht).base
  exact .of_not_preparing (hquiet t ht) (h.txns t ht).staged
    ⟨g, List.mem_append_left _ hg, hbase⟩

theorem Inv.compact (h : Inv P s) (hquiet : s.quiet = true) {faults : CompactionFaults}
    {r : Except TxnError CompactionReport}
    (hrun : publishCompaction P clock faults s.dataset = (r, d)) :
    Inv P { s with
      dataset := d
      executor := if r.isOk then .compacted else .idle
      history := s.record d .compaction } := by
  obtain ⟨hidle, hnone⟩ := quiet_iff.mp hquiet
  obtain ⟨last, cat, hlast, hcur, _, hv, hshown, hstored⟩ := h.recorded.current_valid
  have hrest : Executor.remaining (if r.isOk then .compacted else .idle) = [] := by
    split <;> rfl
  have hfree : ∀ g ∈ s.history, ∀ n ∈ g.snapshot.manifest.objectNames,
      ¬ ofAttempt s.dataset.writeAttemptCounter n :=
    fun g hg n hn => h.recorded.not_nextAttempt hg hn
  rcases publishCompaction_cases hv hstored h.recorded.rowIds_le h.recorded.latest.free hrun with
    ⟨d₁, ts, files, segment, hc, _, rfl, hvalid⟩ | ⟨_, hadv⟩
  · have hsucc : Successor P s.history last _ :=
      hc.successor hcur hshown h.recorded.attempts_le h.recorded.rowIds_le hvalid
    rw [record_published rfl]
    exact h.publish hc.advances hfree hlast hsucc rfl le_rfl le_rfl rfl
      (h.quiet_published hnone) h.apart (h.outcomes.publish_other rfl) (fun t ht _ => ht)
      (fun _ => hnone) hrest
  · rw [record_of_current_eq hadv.current_eq]
    exact h.advance hadv hfree hnone hrest

theorem Inv.migrate (h : Inv P s) (hquiet : s.quiet = true) {migration : SchemaMigration}
    {faults : MigrationFaults} {r : Except TxnError SchemaMigrationResult}
    (hrun : migrateSchema P migration clock faults s.dataset = (r, d)) :
    Inv P { s with
      dataset := d
      history := s.record d (.migration (migration.addedNullableColumn.getD rowIdField)) } := by
  obtain ⟨hidle, hnone⟩ := quiet_iff.mp hquiet
  obtain ⟨last, cat, hlast, hcur, _, hv, hshown, hstored⟩ := h.recorded.current_valid
  have hrest : s.executor.remaining = [] := by
    cases hexec : s.executor with
    | deleting rest => rw [hexec] at hidle; cases hidle
    | _ => rfl
  have hfree : ∀ g ∈ s.history, ∀ n ∈ g.snapshot.manifest.objectNames,
      ¬ ofMigration (s.dataset.current.version + 1) n :=
    fun g hg n hn => h.recorded.not_nextMigration hg hn
  rcases migrateSchema_cases hv hstored h.recorded.latest.free hrun with
    ⟨d₁, column, ts, cat', hm, _, rfl, rfl, hvalid, _⟩ | ⟨_, hadv⟩
  · have hsucc : Successor P s.history last _ := hm.successor hcur hshown hvalid
    rw [record_published rfl]
    exact h.publish hm.advances hfree hlast hsucc rfl
      (h.recorded.attempts_le.trans hm.advances.attempts_le)
      (h.recorded.rowIds_le.trans hm.advances.nextRowId_le) rfl (h.quiet_published hnone) h.apart
      (h.outcomes.publish_other rfl) (fun t ht _ => ht) (fun _ => hnone) hrest
  · rw [record_of_current_eq hadv.current_eq]
    exact h.advance hadv hfree hnone hrest

/-! ### Plans and deletions -/

theorem Inv.setExecutor (h : Inv P s) {executor : Executor}
    (hquiet : executor.isIdle = false → ∀ t ∈ s.txns, t.stage.preparing = false)
    (hdel : ∀ key size, .ok (key, size) ∈ executor.remaining → s.Deletable key) :
    Inv P { s with executor } :=
  { h with
    exclusive := hquiet
    deletable := fun key size hk => (hdel key size hk).mono rfl fun _ hv => hv }

theorem Inv.abort (h : Inv P s) : Inv P { s with executor := .idle } :=
  h.setExecutor (fun hbusy => by cases hbusy) fun key size hk => by cases hk

theorem Inv.of_planStep (h : Inv P s) (hquiet : ∀ t ∈ s.txns, t.stage.preparing = false)
    {plan : Except TxnError (List Candidate)}
    (hdel : ∀ candidates, plan = .ok candidates → ∀ key size, .ok (key, size) ∈ candidates →
      s.Deletable key) : Inv P (planStep s plan) := by
  unfold planStep
  split
  · rename_i candidates
    exact h.setExecutor (fun _ => hquiet) (hdel candidates rfl)
  · exact h.abort

theorem Inv.deletable_data (h : Inv P s)
    (hkey : ∃ n, key = .data n ∧ ∀ version ∈ s.live, ∀ m,
      readListed P s.dataset.store version = .ok m → n ∉ m.objectNames) :
    s.Deletable key := by
  obtain ⟨n, rfl, hnot⟩ := hkey
  refine ⟨fun _ => by simp, fun _ _ _ => by simp, fun g hg hl k hk heq => ?_⟩
  obtain ⟨cat, hv, _⟩ := h.recorded.valid_of_mem hg
  cases heq
  exact hnot _ hl _ ((h.kept g hg hl).readListed hv) hk

theorem deletable_manifest (hkey : ∃ version, key = .manifest version ∧ version ∉ s.live) :
    s.Deletable key := by
  obtain ⟨version, rfl, hnot⟩ := hkey
  refine ⟨fun _ => by simp, fun g _ hl heq => ?_, fun _ _ _ _ _ => by simp⟩
  rw [Key.manifest.inj heq] at hnot
  exact hnot hl

theorem delete_cases (store : Store) (key : Key) (fault : Fault) :
    (store.delete key fault).1 = store ∨ (store.delete key fault).1 = store.erase key := by
  cases fault with
  | early => exact .inl rfl
  | none => simp only [Store.delete]; split <;> simp
  | late => simp only [Store.delete]; split <;> simp

theorem deleteObject_cases {d' : Dataset} (h : deleteObject key fault d = (r, d')) :
    d' = d ∨ d' = { d with store := d.store.erase key } := by
  have hd : d' = { d with store := (d.store.delete key fault).1 } := by
    unfold deleteObject at h
    split at h <;> rename_i hdel <;> rw [hdel] <;> exact (Prod.mk.inj h).2.symm
  rcases delete_cases d.store key fault with hstore | hstore
  · rw [hd, hstore]
    exact .inl rfl
  · rw [hd, hstore]
    exact .inr rfl

theorem Inv.erase (h : Inv P s) (hdel : s.Deletable key)
    (hquiet : ∀ t ∈ s.txns, t.stage.preparing = false) :
    Inv P { s with dataset := { s.dataset with store := s.dataset.store.erase key } } := by
  obtain ⟨g, hg, hcur⟩ := h.current_mem
  have hlive : g.snapshot.version ∈ s.live := mem_live.mpr (.inl (by rw [hcur]))
  refine { h with
    recorded := h.recorded.erase ?_ ?_ hdel.reservation
    kept := fun g hg hl => (h.kept g hg hl).erase (hdel.manifest g hg hl) (hdel.data g hg hl)
    txns := fun t ht =>
      .of_not_preparing (hquiet t ht) (h.txns t ht).staged (h.txns t ht).base
    deletable := fun key size hk => (h.deletable key size hk).mono rfl fun _ hv => hv }
  · rw [← hcur]
    exact hdel.manifest g hg hlive
  · rw [← hcur]
    exact hdel.data g hg hlive

theorem Inv.deleteNext (h : Inv P s) {size : ℕ} {rest : List Candidate}
    (hexec : s.executor = .deleting (.ok (key, size) :: rest))
    (hrun : deleteObject key fault s.dataset = (r, d)) :
    Inv P { s with dataset := d, executor := if r.isOk then .deleting rest else .idle } := by
  have hquiet : ∀ t ∈ s.txns, t.stage.preparing = false := h.exclusive (by rw [hexec]; rfl)
  have hdel : ∀ k n, .ok (k, n) ∈ (Executor.deleting (.ok (key, size) :: rest)).remaining →
      s.Deletable k := hexec ▸ h.deletable
  have hgone : Inv P { s with dataset := d } := by
    rcases deleteObject_cases hrun with rfl | rfl
    · exact h
    · exact h.erase (hdel key size List.mem_cons_self) hquiet
  refine hgone.setExecutor (fun _ => hquiet) fun k n hk => ?_
  split at hk
  · refine (hdel k n (List.mem_cons_of_mem _ hk)).mono rfl fun version hv => live_subset ?_
      (fun b hb => .inl ?_) hv
    · rcases deleteObject_cases hrun with rfl | rfl <;> rfl
    · exact hb
  · cases hk

/-! ### Opening and creation -/

theorem not_preparing_of_dead {stage : Stage} (h : stage.alive = false) :
    stage.preparing = false := by
  cases stage <;> first | rfl | cases h

/-- What opening gives: the current version, with counters that cover the record. -/
theorem Inv.opened (h : Inv P s) (hopen : openDataset P s.dataset.store = .ok d) :
    d.store = s.dataset.store ∧ d.current = s.dataset.current ∧
      d.log = CommitLog.new commitLogCapacity ∧ Recorded P d s.history ∧
      s.dataset.nextRowId ≤ d.nextRowId := by
  obtain ⟨last, cat, hlast, hcur, _, hv, _, hstored⟩ := h.recorded.current_valid
  obtain ⟨highest, hread, hle, hdurable⟩ := h.recorded.durable.highWater
  obtain ⟨_, _, rfl⟩ := (openDataset_eq_ok hv hstored h.recorded.latest hread).mp hopen
  have hmax : max s.dataset.current.manifest.nextRowId highest = highest :=
    max_eq_right (h.recorded.rowIds_le.trans hle)
  refine ⟨rfl, rfl, rfl, ⟨h.recorded.chain, h.recorded.current, h.recorded.listed, le_rfl,
    le_max_left _ _, ?_⟩, hle.trans (le_max_right _ _)⟩
  show Durable s.dataset.store (max _ _)
  rw [hmax]
  exact hdurable

theorem Inv.reopen (h : Inv P s) (hs : reopenStep P s = some s') : Inv P s' := by
  unfold reopenStep at hs
  split at hs
  · rename_i d hopen
    cases hs
    obtain ⟨hstore, hcur, hlog, hrec, -⟩ := h.opened hopen
    have hdead : ∀ t ∈ s.txns.map fun t => if t.stage.alive then ⟨t.txn, .dropped⟩ else t,
        t.stage.alive = false ∧ ∃ u ∈ s.txns, u.txn = t.txn := by
      intro t ht
      obtain ⟨u, hu, rfl⟩ := List.mem_map.mp ht
      split
      · exact ⟨rfl, u, hu, rfl⟩
      · rename_i halive
        exact ⟨by simpa using halive, u, hu, rfl⟩
    have hidle := fun t ht => not_preparing_of_dead (hdead t ht).1
    refine {
      recorded := hrec
      log := ?_
      openedAt_pos := h.openedAt_pos.trans_le h.openedAt_le
      openedAt_le := le_rfl
      kept := fun g hg hl => ?_
      holders := fun b hb => by cases hb
      txns := fun t ht => ?_
      apart := fun i j t u _ ht _ => .of_not_preparing (hidle t (List.mem_of_getElem? ht)) u
      outcomes := h.outcomes.reopen
      exclusive := fun _ => hidle
      deletable := fun key size hk => by cases hk }
    · rw [hlog]
      exact logCovers_new _ _
    · have hlive : g.snapshot.version ∈ s.live := by
        rcases mem_live.mp hl with hl | ⟨b, hb, _⟩
        · exact mem_live.mpr (.inl (by rw [← hl]; exact congrArg _ hcur.symm))
        · rcases mem_held.mp hb with hb | ⟨t, ht, halive, _⟩
          · cases hb
          · rw [(hdead t ht).1] at halive
            cases halive
      show g.KeptIn d.store
      rw [hstore]
      exact h.kept g hg hlive
    · obtain ⟨_, u, hu, htxn⟩ := hdead t ht
      refine .of_not_preparing (hidle t ht) ?_ ?_
      · rw [← htxn]
        exact (h.txns u hu).staged
      · rw [← htxn]
        exact (h.txns u hu).base
  · cases hs

theorem recorded_created (hc : Created P schema capacity d) :
    Recorded P d [⟨.created, d.current, d.store⟩] where
  chain := .created rfl
    ⟨Catalog.empty, hc.valid, ⟨by simp [Catalog.empty], by simp [Catalog.empty]⟩, rfl⟩ hc.version
  current := ⟨_, rfl, rfl, hc.latest.listed, fun _ _ => rfl⟩
  listed version object hget := by
    have hle := hc.latest.highest version (by rw [hget]; rfl)
    rw [hc.version] at hle
    obtain rfl := Nat.le_zero.mp hle
    refine ⟨_, List.mem_singleton_self _, hc.version, ?_⟩
    have hlisted := hc.latest.listed
    rw [hc.version, hget] at hlisted
    exact Option.some.inj hlisted
  attempts_le := by rw [hc.nextAttemptId]; exact Nat.zero_le _
  rowIds_le := by rw [hc.nextRowId]; exact Nat.zero_le _
  durable := hc.durable

theorem inv_created {store store' : Store} {faults : CreateFaults}
    (h : createDataset P store schema capacity clock faults = (store', .ok d)) :
    Inv P (System.created d) := by
  have hc := (createDataset_spec h).1
  have hnone : Outcomes [] [] := ⟨by simp, by simp, fun i j x y _ hx _ => by cases hx⟩
  exact {
    recorded := recorded_created hc
    log := by
      show LogCovers d.log _ _
      rw [hc.log]
      exact logCovers_new _ _
    openedAt_pos := Nat.one_pos
    openedAt_le := le_rfl
    kept := fun g hg _ => by
      obtain rfl := List.mem_singleton.mp hg
      exact ⟨hc.latest.listed, fun _ _ => rfl⟩
    holders := fun b hb => by cases hb
    txns := fun t ht => by cases ht
    apart := fun i j t u _ ht _ => by cases ht
    outcomes := hnone.publish_other rfl
    exclusive := fun hbusy => by cases hbusy
    deletable := fun key size hk => by cases hk }

/-! ### Every step -/

/-- A staged operation keeps the rest of its transaction. -/
theorem Inv.of_stage (h : Inv P s) {id : ℕ} {op : Transaction → Except TxnError Transaction}
    {txn txn' : Transaction} (hlabel : label.stages = some (id, op))
    (hid : s.txns[id]? = some ⟨txn, .staging⟩) (hop : op txn = .ok txn') :
    Inv P (s.setTxn id ⟨txn', .staging⟩) := by
  have hst := (h.txns _ (List.mem_of_getElem? hid)).staged
  obtain ⟨hst', hbase⟩ : txn'.Staged ∧ txn'.base = txn.base := by
    cases label <;> cases hlabel
    · exact hst.insert hop
    · exact hst.delete hop
    · exact hst.update hop
  exact h.setTxn hid rfl rfl (fun _ => by simp) hst' hbase

theorem Inv.of_plan (h : Inv P s) {plan : Except TxnError (List Candidate)}
    (hplan : planOf P s label = some plan)
    (hfree : s.quiet = true ∨ s.executor.isIdle = false) : Inv P (planStep s plan) := by
  have hquiet : ∀ t ∈ s.txns, t.stage.preparing = false :=
    hfree.elim (fun hq => (quiet_iff.mp hq).2) h.exclusive
  cases label <;> cases hplan <;> refine h.of_planStep hquiet fun candidates hplan key size hk => ?_
  · exact h.deletable_data (reclaimPlan_keeps hplan hk)
  · exact deletable_manifest (prunePlan_keeps
      (fun _ hvs _ hv => buildManifestPruneAuthority_keeps hvs hv) hplan hk)
  · exact deletable_manifest (prunePlan_keeps
      (fun _ hvs _ hv => buildAgeManifestPruneAuthority_keeps hvs hv) hplan hk)
  · exact h.deletable_data (vacuumPlan_keeps hplan hk)

theorem Inv.step (h : Inv P s) (hs : systemStep P s label = some s') : Inv P s' := by
  cases Move.of_step hs with
  | begin => exact h.begin
  | stage hlabel hid hop => exact h.of_stage hlabel hid hop
  | refuse _ => exact h
  | rollback hid =>
    exact h.setTxn hid rfl rfl (fun _ => by simp) (h.txns _ (List.mem_of_getElem? hid)).staged rfl
  | acquire => exact h.setHolders fun b hb => by simpa using hb
  | clone hb =>
    refine h.setHolders fun c hc => .inl ?_
    rcases List.mem_append.mp hc with hc | hc
    · exact hc
    · rw [List.mem_singleton.mp hc]
      exact List.mem_of_getElem? hb
  | drop _ => exact h.setHolders fun b hb => .inl (List.mem_of_mem_eraseIdx hb)
  | reopen hs => exact h.reopen hs
  | start hid hidle => exact h.start hid hidle _
  | skip hid hnil => exact h.number_nil hid hnil
  | number hid => exact h.number hid _
  | claim hid => exact h.claim hid _
  | write hid => exact h.write hid _
  | index hid => exact h.index hid _
  | publish hid hrun => exact h.publishCommit hid hrun
  | compact hquiet hrun => exact h.compact hquiet hrun
  | plan hplan hfree => exact h.of_plan hplan hfree
  | finish _ | abort => exact h.abort
  | deleteNext hexec hrun => exact h.deleteNext hexec hrun
  | migrate hquiet hrun => exact h.migrate hquiet hrun

theorem inv_of_reachable (h : (system P).Reachable s) : Inv P s := by
  refine h.invariant (fun s hs => ?_) fun s label s' _ hi hs => ?_
  swap
  · exact hi.step hs
  obtain ⟨store, schema, capacity, clock, faults, store', d, hcreate, rfl⟩ := hs
  exact inv_created hcreate

end StrataDB.Txn.System
