import StrataDB.Txn.Safety

/-! What transactions see of each other: no update is lost, the published rows
are those of a serial execution in version order, and the commit log answers for
every version it claims to cover. -/

namespace StrataDB.Txn

open Lib Arrow Index Storage

variable {P : Platform} {s : System}

/-! ### Lost updates -/

/-- The transaction with this number became visible as this version: its commit
said so, and the version is its publication. -/
structure System.Visible (s : System) (id : ℕ) (t : Transaction) (version : ℕ) : Prop where
  finished : ∃ outcome, s.txns[id]? = some ⟨t, .finished outcome⟩ ∧ VisibleResult version outcome
  published : ∃ h ∈ s.history, h.event.txn? = some id ∧ h.snapshot.version = version

/-- A visible transaction's write set is what its version tombstoned. -/
theorem System.Visible.tombstoned (h : s.Inv P) {id version : ℕ} {t : Transaction}
    (hv : s.Visible id t version) :
    version < s.history.length ∧ 0 < version ∧
      ∀ i, i ∈ t.writeSet ↔ i ∈ tombstonedIds s.history version := by
  obtain ⟨g, hg, htxn, rfl⟩ := hv.published
  obtain ⟨t', outcome, base, ts, hid, _, hevent, hlt⟩ := h.outcomes.visible g hg id htxn
  obtain ⟨outcome', hid', _⟩ := hv.finished
  rw [hid] at hid'
  cases hid'
  obtain ⟨k, hk⟩ := List.mem_iff_getElem?.mp hg
  have hkv := h.recorded.chain.version hk
  refine ⟨?_, by omega, fun i => ?_⟩
  · rw [hkv]
    exact (List.getElem?_eq_some_iff.mp hk).1
  · have hws : g.event.writeSet = t.writeSet := by rw [hevent]; rfl
    rw [hkv]
    constructor
    · exact fun hi => ⟨g, hk, hws ▸ hi⟩
    · rintro ⟨g', hg', hi⟩
      rw [hk] at hg'
      cases hg'
      exact hws ▸ hi

/-- Two visible transactions never tombstone one row; in particular a later one
whose base did not include the earlier one has a disjoint write set. -/
theorem writeSets_disjoint (h : (system P).Reachable s) {id₁ id₂ v₁ v₂ : ℕ}
    {t₁ t₂ : Transaction} (h₁ : s.Visible id₁ t₁ v₁) (h₂ : s.Visible id₂ t₂ v₂) :
    (v₁ < v₂ → t₂.base.version < v₁ → t₁.writeSet.Disjoint t₂.writeSet) ∧
      (id₁ ≠ id₂ → t₁.writeSet.Disjoint t₂.writeSet) := by
  have hi := System.inv_of_reachable h
  obtain ⟨hlt₁, hpos₁, hws₁⟩ := h₁.tombstoned hi
  obtain ⟨hlt₂, hpos₂, hws₂⟩ := h₂.tombstoned hi
  have hflow := hi.recorded.chain.flow
  have hdisj : v₁ ≠ v₂ → t₁.writeSet.Disjoint t₂.writeSet := by
    intro hne i hi₁ hi₂
    rw [hws₁] at hi₁
    rw [hws₂] at hi₂
    rcases Nat.lt_or_gt_of_ne hne with hlt | hlt
    · exact Set.disjoint_left.mp (hflow.removed_disjoint hpos₁ hlt hlt₂) hi₁ hi₂
    · exact Set.disjoint_left.mp (hflow.removed_disjoint hpos₂ hlt hlt₁) hi₂ hi₁
  refine ⟨fun hlt _ => hdisj (by omega), fun hne => hdisj ?_⟩
  rintro rfl
  obtain ⟨g₁, hg₁, htxn₁, hv₁⟩ := h₁.published
  obtain ⟨g₂, hg₂, htxn₂, hv₂⟩ := h₂.published
  rw [hi.recorded.eq_of_version hg₁ hg₂ (hv₁.trans hv₂.symm), htxn₂] at htxn₁
  exact hne (Option.some.inj htxn₁).symm

/-- Two transactions from the same base delete one row each. -/
def twoDeletes : System :=
  (plainRun idSchema ([.begin, .insert 0 (idBatch [10, 20])] ++ commitLabels 0 1 ++
    [.begin, .begin, .delete 1 0, .delete 2 1] ++ commitDeleteLabels 1 2 ++
    commitDeleteLabels 2 3)).get (by decide +kernel)

theorem reachable_twoDeletes : (system plainPlatform).Reachable twoDeletes :=
  reachable_runOn (Option.some_get _).symm

theorem writeSets_disjoint_twoDeletes :
    ∃ t₁ t₂, twoDeletes.Visible 1 t₁ 2 ∧ twoDeletes.Visible 2 t₂ 3 ∧ t₂.base.version < 2 ∧
      t₁.writeSet = [0] ∧ t₁.writeSet.Disjoint t₂.writeSet := by
  have h₁ : twoDeletes.Visible 1 _ 2 :=
    ⟨⟨.ok (), rfl, .inl ⟨(), rfl⟩⟩, _, List.mem_of_getElem? (i := 2) rfl, rfl, rfl⟩
  have h₂ : twoDeletes.Visible 2 _ 3 :=
    ⟨⟨.ok (), rfl, .inl ⟨(), rfl⟩⟩, _, List.mem_of_getElem? (i := 3) rfl, rfl, rfl⟩
  exact ⟨_, _, h₁, h₂, by decide, rfl,
    (writeSets_disjoint reachable_twoDeletes h₁ h₂).1 (by decide) (by decide)⟩

/-! ### Serial equivalence -/

/-- The rows of the current version, as a scan returns them, are what the visible
transactions leave when they are applied one at a time in version order, with
compaction as the identity and the migration adding a null column. Each visible
transaction is applied once and finds every row of its write set; the others are
not applied at all. -/
theorem scan_eq_replay (h : (system P).Reachable s) :
    (∃ batch, s.dataset.current.scan P s.dataset.store (fullSchema s.dataset.current.schema) =
        .ok batch ∧ batch.rows = replay (s.history.map Publication.event)) ∧
      (∀ k g, s.history[k]? = some g → g.snapshot.version = k ∧
        (∀ i ∈ g.event.writeSet,
          i ∈ (replay ((s.history.take k).map Publication.event)).map storedRowId) ∧
        ∀ id, g.event.txn? = some id →
          (∃ t rowIdBase ts, s.Visible id t k ∧ g.event = t.event id rowIdBase ts) ∧
            ∀ k' g', s.history[k']? = some g' → g'.event.txn? = some id → k' = k) ∧
      ∀ id t outcome, s.txns[id]? = some ⟨t, .finished outcome⟩ →
        ((∃ g ∈ s.history, g.event.txn? = some id) ↔ ∃ version, VisibleResult version outcome) := by
  have hi := System.inv_of_reachable h
  refine ⟨?_, fun k g hk => ⟨hi.recorded.chain.version hk, fun i hmem => ?_, fun id htxn => ?_⟩,
    fun id t outcome hid => ⟨fun ⟨g, hg, htxn⟩ => ?_, fun ⟨version, hv⟩ => ?_⟩⟩
  · obtain ⟨cat, hv, hstored, hrows⟩ := hi.recorded.valid
    rw [← hrows]
    exact hv.scan_full hstored
  · cases k with
    | zero =>
      have hcreated := hi.recorded.chain.head_event hk
      rw [hcreated] at hmem
      cases hmem
    | succ k =>
      have hlt := (List.getElem?_eq_some_iff.mp hk).1
      have hprev := List.getElem?_eq_getElem (by omega : k < s.history.length)
      have hlive := (hi.recorded.chain.successor hprev hk).targets i hmem
      exact (hi.recorded.chain.shows hprev).ownsLiveRow_iff.mp hlive
  · have hg := List.mem_of_getElem? hk
    obtain ⟨t, outcome, rowIdBase, ts, hid, hv, hevent, _⟩ := hi.outcomes.visible g hg id htxn
    have hkv := hi.recorded.chain.version hk
    refine ⟨⟨t, rowIdBase, ts, ⟨⟨outcome, hid, hkv ▸ hv⟩, g, hg, htxn, hkv⟩, hevent⟩, ?_⟩
    intro k' g' hk' htxn'
    by_contra hne
    exact hi.outcomes.once k' k g' g hne hk' hk id htxn' htxn
  · obtain ⟨t', outcome', _, _, hid', hv, _⟩ := hi.outcomes.visible g hg id htxn
    rw [hid] at hid'
    cases hid'
    exact ⟨_, hv⟩
  · exact hi.outcomes.published id t outcome version hid hv

/-- An update, a conflict with it, a compaction and the migration. -/
def mixedLabels : List Label :=
  [.begin, .insert 0 (idBatch [10, 20])] ++ commitLabels 0 1 ++
    [.begin, .begin, .update 1 0 (idBatch [11]), .delete 2 0] ++ commitLabels 1 2 ++
    commitDeleteLabels 2 3 ++ [.compact (some 4) {}, .reclaim, .abort,
      .migrate (.addNullableColumn 1 2 (Field.new "note" .utf8 true)) (some 5) {}]

theorem scan_eq_replay_mixedLabels :
    ∃ s batch, plainRun idSchema mixedLabels = some s ∧
      s.dataset.current.scan plainPlatform s.dataset.store
        (fullSchema s.dataset.current.schema) = .ok batch ∧
      batch.rows = [[.int64 20, .null, .uint64 1, .int64 1],
        [.int64 11, .null, .uint64 2, .int64 2]] := by
  have hrun : (plainRun idSchema mixedLabels).map
      (fun s => replay (s.history.map Publication.event)) =
      some [[.int64 20, .null, .uint64 1, .int64 1], [.int64 11, .null, .uint64 2, .int64 2]] := by
    decide +kernel
  obtain ⟨s, hs, hreplay⟩ := Option.map_eq_some_iff.mp hrun
  obtain ⟨batch, hscan, hrows⟩ := (scan_eq_replay (reachable_runOn hs)).1
  exact ⟨s, batch, hs, hscan, hrows.trans hreplay⟩

/-! ### The commit log -/

theorem Event.writeSet_of_not_commit {e : Event} (h : e.txn? = none) : e.writeSet = [] := by
  cases e <;> first | rfl | cases h

/-- The row ids a version tombstoned: those it added to the tombstones of the
version before. -/
def System.tombstonedBy (s : System) (version : ℕ) : Set ℕ :=
  {i | ∃ h h', s.history[version - 1]? = some h ∧ s.history[version]? = some h' ∧
    i ∈ h'.snapshot.tombstones ∧ i ∉ h.snapshot.tombstones}

/-- The log holds exactly what the versions from some version on tombstoned. -/
theorem System.Inv.log_entries (h : s.Inv P) :
    ∃ first, 0 < first ∧ first ≤ s.dataset.current.version + 1 ∧
      s.openedAt ≤ first ∧ s.dataset.current.version + 1 ≤ first + s.dataset.log.capacity ∧
      (first = s.dataset.current.version + 1 → s.history.length = s.openedAt) ∧
      s.dataset.log.entries = (s.history.drop first).map fun h =>
        (h.snapshot.version, h.event.writeSet) := by
  obtain ⟨first, hopened, hle, hcap, hempty, hentries⟩ := h.log.entries_eq h.openedAt_le
  have hlen := h.recorded.length_eq
  have hpos := h.openedAt_pos
  exact ⟨first, by omega, by omega, hopened, by omega, fun hf => hempty (by omega), hentries⟩

/-- A version after the first tombstoned the write set of its event. -/
theorem System.Inv.tombstonedBy_eq (h : s.Inv P) {k : ℕ} {g : Publication}
    (hk : s.history[k]? = some g) (hpos : 0 < k) (i : ℕ) :
    i ∈ s.tombstonedBy k ↔ i ∈ g.event.writeSet := by
  obtain ⟨k, rfl⟩ := Nat.exists_eq_succ_of_ne_zero hpos.ne'
  have hlt := (List.getElem?_eq_some_iff.mp hk).1
  have hprev := List.getElem?_eq_getElem (by omega : k < s.history.length)
  rw [(h.recorded.chain.successor hprev hk).tombstones]
  constructor
  · rintro ⟨a, b, ha, hb, hmem⟩
    rw [Nat.succ_sub_one, hprev] at ha
    rw [hk] at hb
    cases ha
    cases hb
    exact hmem
  · exact fun hmem => ⟨_, g, by rw [Nat.succ_sub_one, hprev], hk, hmem⟩

/-- The log covers consecutive versions up to the current one, each with what it
tombstoned, so that a clean answer holds for every version after the base. -/
theorem commitLog_covers (h : (system P).Reachable s) :
    (∃ first, s.dataset.log.entries.map Prod.fst =
        List.range' first (s.dataset.log.entries.length)) ∧
      s.dataset.log.entries.length ≤ s.dataset.log.capacity ∧
      ((s.dataset.log.entries.map Prod.fst).getLast? = some s.dataset.current.version ∨
        s.dataset.log.entries = [] ∧ s.history.length = s.openedAt) ∧
      (∀ e ∈ s.dataset.log.entries, (∀ i, i ∈ e.2 ↔ i ∈ s.tombstonedBy e.1) ∧
        ∀ g, s.history[e.1]? = some g → g.event.txn? = none → e.2 = []) ∧
      ∀ base ws, ws ≠ [] →
        s.dataset.log.conflictsWith base s.dataset.current.version ws = .clean →
        ∀ version, base < version → version ≤ s.dataset.current.version →
          ∀ i ∈ ws, i ∉ s.tombstonedBy version := by
  have hi := System.inv_of_reachable h
  obtain ⟨first, hpos, hle, _, hcap, hempty, hentries⟩ := hi.log_entries
  have hlen := hi.recorded.length_eq
  have hversions : s.dataset.log.entries.map Prod.fst =
      List.range' first (s.dataset.current.version + 1 - first) := by
    rw [hentries, List.map_map, ← hlen]
    exact hi.recorded.chain.versions_drop first
  have hcount : s.dataset.log.entries.length = s.dataset.current.version + 1 - first := by
    rw [← List.length_map, hversions, List.length_range']
  -- an entry is the version and the write set of some publication after the first
  have hentry : ∀ e ∈ s.dataset.log.entries, ∃ g, s.history[e.1]? = some g ∧ 0 < e.1 ∧
      e.2 = g.event.writeSet := by
    intro e he
    rw [hentries] at he
    obtain ⟨g, hg, rfl⟩ := List.mem_map.mp he
    obtain ⟨j, hj⟩ := List.mem_iff_getElem?.mp hg
    rw [List.getElem?_drop] at hj
    have hv := hi.recorded.chain.version hj
    exact ⟨g, by rw [hv, hj], by dsimp only; omega, rfl⟩
  refine ⟨⟨first, by rw [hcount, hversions]⟩, by omega, ?_, fun e he => ?_, ?_⟩
  · by_cases hf : first = s.dataset.current.version + 1
    · refine .inr ⟨?_, hempty hf⟩
      rw [← List.length_eq_zero_iff]
      omega
    · refine .inl ?_
      rw [hversions, List.getLast?_eq_getElem?, List.length_range',
        List.getElem?_range' (by omega)]
      congr 1
      omega
  · obtain ⟨g, hg, hepos, hws⟩ := hentry e he
    refine ⟨fun i => by rw [hws, hi.tombstonedBy_eq hg hepos], fun g' hg' hnone => ?_⟩
    rw [hg] at hg'
    cases hg'
    rw [hws]
    exact Event.writeSet_of_not_commit hnone
  · intro base ws hws hclean version hbase hversion i hiws hmem
    have hasc : s.dataset.log.Ascending := by
      refine List.pairwise_map.mp (?_ : (s.dataset.log.entries.map Prod.fst).Pairwise (· < ·))
      rw [hversions]
      exact List.pairwise_lt_range'
    obtain ⟨⟨e, rest, hcons, hreach⟩, hnone⟩ :=
      (CommitLog.conflictsWith_eq_clean hasc hws (by omega)).mp hclean
    have hfirst : first = e.1 := by
      have hhead := congrArg List.head? hversions
      rw [hcons, List.map_cons, List.head?_cons, List.head?_range'] at hhead
      split at hhead
      · cases hhead
      · exact (Option.some.inj hhead).symm
    have hg := List.getElem?_eq_getElem (by omega : version < s.history.length)
    have hmemlog : (version, (s.history[version]).event.writeSet) ∈ s.dataset.log.entries := by
      rw [hentries]
      refine List.mem_map.mpr ⟨s.history[version], ?_, by rw [hi.recorded.chain.version hg]⟩
      refine List.mem_of_getElem? (i := version - first) ?_
      rw [List.getElem?_drop, Nat.add_sub_cancel' (by omega), hg]
    exact hnone _ hmemlog hbase hversion i
      ((hi.tombstonedBy_eq hg (by omega) i).mp hmem) hiws

theorem commitLog_covers_twoDeletes :
    twoDeletes.dataset.log.entries = [(1, []), (2, [0]), (3, [1])] ∧
      twoDeletes.dataset.log.conflictsWith 1 3 [7] = .clean ∧
      ∀ version, 1 < version → version ≤ 3 → ∀ i ∈ [7], i ∉ twoDeletes.tombstonedBy version := by
  refine ⟨by decide +kernel, by decide +kernel, ?_⟩
  exact (commitLog_covers reachable_twoDeletes).2.2.2.2 1 [7] (by simp) (by decide +kernel)

/-! ### The commit check -/

/-- A row that some logged version wrote is not live. -/
theorem System.Inv.logged_gone (h : s.Inv P) {e : ℕ × List ℕ} (he : e ∈ s.dataset.log.entries)
    {i : ℕ} (hi : i ∈ e.2) : s.dataset.current.ownsLiveRow i = false := by
  obtain ⟨first, hpos, -, -, -, -, hentries⟩ := h.log_entries
  rw [hentries] at he
  obtain ⟨g, hg, rfl⟩ := List.mem_map.mp he
  obtain ⟨j, hj⟩ := List.mem_iff_getElem?.mp hg
  rw [List.getElem?_drop] at hj
  obtain ⟨k, hk⟩ := Nat.exists_eq_succ_of_ne_zero (by omega : first + j ≠ 0)
  obtain ⟨last, hlast, hcurrent, -⟩ := h.recorded.current
  obtain ⟨hlast, -⟩ := Chain.getElem?_of_getLast? hlast
  have hlt := (List.getElem?_eq_some_iff.mp hj).1
  by_contra hlive
  rw [Bool.not_eq_false, ← hcurrent] at hlive
  exact h.recorded.chain.flow.removed_not_live (i := k) (j := s.history.length - 1) (by omega)
    (by omega) ⟨g, by rw [← hj, hk], hi⟩ ⟨last, hlast, hlive⟩

/-- A commit passes the check exactly if the schema is that of its base, its rows are still
live and, unless it writes none or nothing was published since, the log reaches back to its
base. -/
theorem commit_check_exact (h : (system P).Reachable s) (t : Transaction) :
    checkCommit s.dataset.log s.dataset.current t = .ok () ↔
      s.dataset.current.manifest.effectiveSchemaVersion =
          t.base.manifest.effectiveSchemaVersion ∧
        (∀ i ∈ t.writeSet, s.dataset.current.ownsLiveRow i = true) ∧
        (t.writeSet = [] ∨ s.dataset.current.version ≤ t.base.version ∨
          ∃ e rest, s.dataset.log.entries = e :: rest ∧ e.1 ≤ t.base.version + 1) := by
  have hi := System.inv_of_reachable h
  have hasc : s.dataset.log.Ascending := by
    obtain ⟨first, -, -, -, -, -, hentries⟩ := hi.log_entries
    refine List.pairwise_map.mp (?_ : (s.dataset.log.entries.map Prod.fst).Pairwise (· < ·))
    rw [hentries, List.map_map]
    exact (hi.recorded.chain.versions_drop first).symm ▸ List.pairwise_lt_range'
  rw [checkCommit_eq_ok, and_comm (b := ∀ i ∈ t.writeSet, _)]
  refine and_congr_right fun _ => and_congr_right fun hlive => ?_
  by_cases hnil : t.writeSet = []
  · simp [CommitLog.conflictsWith, hnil]
  by_cases hle : s.dataset.current.version ≤ t.base.version
  · simp [CommitLog.conflictsWith, hle]
  rw [CommitLog.conflictsWith_eq_clean hasc hnil (by omega)]
  simp only [hnil, hle, false_or]
  refine and_iff_left fun e he _ _ i hwrote hwrites => ?_
  simpa [hi.logged_gone he hwrote] using hlive i hwrites

/-- A delete that was committed does not pass again. -/
theorem commit_check_exact_twoDeletes :
    ∃ t, twoDeletes.txns[2]? = some t ∧ t.txn.writeSet = [1] ∧
      checkCommit twoDeletes.dataset.log twoDeletes.dataset.current t.txn ≠ .ok () := by
  refine ⟨_, rfl, rfl, fun hok => ?_⟩
  have hlive := ((commit_check_exact reachable_twoDeletes _).mp hok).2.1 1 (by decide)
  revert hlive
  decide +kernel

end StrataDB.Txn
