import StrataDB.Txn.Invariant
import StrataDB.Txn.Succession

/-! Every step keeps the invariant. -/

namespace StrataDB.Txn.System

open Lib Arrow Index Storage

variable {P : Platform} {s s' : System}

/-! ### Leases -/

theorem live_subset (hcur : s'.dataset.current = s.dataset.current)
    (hheld : ∀ b ∈ s'.held, b ∈ s.held ∨ b = s.dataset.current) {version : ℕ}
    (h : version ∈ s'.live) : version ∈ s.live := by
  rw [mem_live] at h ⊢
  rcases h with h | ⟨b, hb, h⟩
  · exact .inl (by rw [← hcur, h])
  · rcases hheld b hb with hb | rfl
    · exact .inr ⟨b, hb, h⟩
    · exact .inl h

theorem Deletable.mono {key : Key} (h : s.Deletable key) (hhist : s'.history = s.history)
    (hlive : ∀ version ∈ s'.live, version ∈ s.live) : s'.Deletable key where
  reservation := h.reservation
  manifest g hg hl := h.manifest g (hhist ▸ hg) (hlive _ hl)
  data g hg hl := h.data g (hhist ▸ hg) (hlive _ hl)

theorem Inv.current_mem (h : Inv P s) : ∃ g ∈ s.history, g.snapshot = s.dataset.current := by
  obtain ⟨last, hlast, hcur, _⟩ := h.recorded.current
  exact ⟨last, List.mem_of_getLast? hlast, hcur⟩

/-- The current version and every held one were published and count as live. -/
theorem Inv.live_mem (h : Inv P s) {b : Snapshot} (hb : b ∈ s.dataset.current :: s.held) :
    ∃ g ∈ s.history, g.snapshot = b ∧ g.snapshot.version ∈ s.live := by
  rcases List.mem_cons.mp hb with rfl | hb
  · obtain ⟨g, hg, hcur⟩ := h.current_mem
    exact ⟨g, hg, hcur, mem_live.mpr (.inl (by rw [hcur]))⟩
  · have hlive : b.version ∈ s.live := mem_live.mpr (.inr ⟨b, hb, rfl⟩)
    rcases mem_held.mp hb with hb | ⟨t, ht, _, rfl⟩
    · obtain ⟨g, hg, rfl⟩ := h.holders b hb
      exact ⟨g, hg, rfl, hlive⟩
    · obtain ⟨g, hg, hbase⟩ := (h.txns t ht).base
      exact ⟨g, hg, hbase, by rw [hbase]; exact hlive⟩

theorem Inv.setHolders (h : Inv P s) {holders : List Snapshot}
    (hsub : ∀ b ∈ holders, b ∈ s.holders ∨ b = s.dataset.current) :
    Inv P { s with holders } := by
  have hlive : ∀ version ∈ live { s with holders }, version ∈ s.live := by
    refine fun version hv => live_subset ?_ (fun b hb => ?_) hv
    · rfl
    rcases mem_held.mp hb with hb | hb
    · exact (hsub b hb).imp_left fun hb => mem_held.mpr (.inl hb)
    · exact .inl (mem_held.mpr (.inr hb))
  exact { h with
    kept := fun g hg hl => h.kept g hg (hlive _ hl)
    holders := fun b hb => (hsub b hb).elim (h.holders b) fun hb => hb ▸ h.current_mem
    deletable := fun key size hk => (h.deletable key size hk).mono rfl hlive }

theorem Inv.begin (h : Inv P s) :
    Inv P { s with txns := s.txns ++ [⟨Transaction.begin s.dataset, .staging⟩] } := by
  have hlive : ∀ version ∈ live
      { s with txns := s.txns ++ [⟨Transaction.begin s.dataset, .staging⟩] }, version ∈ s.live := by
    refine fun version hv => live_subset ?_ (fun b hb => ?_) hv
    · rfl
    rcases mem_held.mp hb with hb | ⟨t, ht, halive, rfl⟩
    · exact .inl (mem_held.mpr (.inl hb))
    · rcases List.mem_append.mp ht with ht | ht
      · exact .inl (mem_held.mpr (.inr ⟨t, ht, halive, rfl⟩))
      · rw [List.mem_singleton.mp ht]
        exact .inr rfl
  have hnot : (⟨Transaction.begin s.dataset, .staging⟩ : TxnState).stage.preparing = false := rfl
  exact { h with
    kept := fun g hg hl => h.kept g hg (hlive _ hl)
    txns := List.forall_mem_append.mpr ⟨h.txns, by
      simpa using TxnState.Sound.of_not_preparing hnot (Transaction.staged_begin _) h.current_mem⟩
    apart := h.apart.concat fun t _ =>
      ⟨.of_not_preparing hnot t, (TxnState.Disjoint.of_not_preparing hnot t).symm⟩
    outcomes := h.outcomes.begin _
    exclusive := fun hidle => List.forall_mem_append.mpr ⟨h.exclusive hidle, by simpa using hnot⟩
    deletable := fun key size hk => (h.deletable key size hk).mono rfl hlive }

/-! ### Transactions -/

variable {id : ℕ} {t t' : TxnState} {d : Dataset} {names : ObjectName → Prop} {snapshot : Snapshot}
  {writeSet : List ℕ}

/-- One transaction moves on without publishing; it may write under its own
attempt id. -/
theorem Inv.update (h : Inv P s) (hid : s.txns[id]? = some t) (halive : t.stage.alive = true)
    (hadv : Advances names s.dataset d)
    (hnames : ∀ n, names n → ∃ attempt, t.stage.attempt? = some attempt ∧ n.attempt? = some attempt)
    (hbase : t'.txn.base = t.txn.base) (hsound : t'.Sound P d s.history)
    (hdisj : ∀ j u, j ≠ id → s.txns[j]? = some u → t'.Disjoint u)
    (hidle : t'.stage.preparing = true → s.executor.isIdle = true)
    (hnew : ∀ outcome version, t'.stage = .finished outcome → ¬ VisibleResult version outcome) :
    Inv P { s with dataset := d, txns := s.txns.set id t' } := by
  have hmem : t ∈ s.txns := List.mem_of_getElem? hid
  have hfree : ∀ g ∈ s.history, ∀ n ∈ g.snapshot.manifest.objectNames, ¬ names n := by
    intro g hg n hn hown
    obtain ⟨attempt, hat, hnat⟩ := hnames n hown
    exact (h.txns t hmem).names attempt hat g hg n hn hnat
  have hlive : ∀ version ∈ live { s with dataset := d, txns := s.txns.set id t' },
      version ∈ s.live := by
    refine fun version => live_subset hadv.current_eq fun b hb => .inl ?_
    rcases mem_held.mp hb with hb | ⟨u, hu, hua, rfl⟩
    · exact mem_held.mpr (.inl hb)
    · rcases List.mem_or_eq_of_mem_set hu with hu | rfl
      · exact mem_held.mpr (.inr ⟨u, hu, hua, rfl⟩)
      · exact mem_held.mpr (.inr ⟨t, hmem, halive, hbase.symm⟩)
  obtain ⟨g, hg, hcur⟩ := h.current_mem
  exact { h with
    recorded := h.recorded.advances hadv (hcur ▸ hfree g hg)
    log := by
      show LogCovers d.log s.history s.openedAt
      rw [hadv.log_eq]
      exact h.log
    kept := fun g hg hl => (h.kept g hg (hlive _ hl)).advances hadv (hfree g hg)
    txns := by
      intro u hu
      obtain ⟨j, hj⟩ := List.mem_iff_getElem?.mp hu
      rcases getElem?_set_cases hj with ⟨_, rfl⟩ | ⟨hne, hj⟩
      · exact hsound
      · refine (h.txns u (List.mem_of_getElem? hj)).advances hadv fun a ha n hn hna => ?_
        obtain ⟨attempt, hat, hnat⟩ := hnames n hn
        rw [hnat] at hna
        rw [Option.some.inj hna] at hat
        exact (h.apart id j t u hne.symm hid hj).attempts a hat ha
    apart := h.apart.set fun j u hj hu => ⟨hdisj j u hj hu, (hdisj j u hj hu).symm⟩
    outcomes := h.outcomes.set hid halive hnew
    exclusive := fun hbusy u hu => by
      rcases List.mem_or_eq_of_mem_set hu with hu | rfl
      · exact h.exclusive hbusy u hu
      · by_contra hprep
        rw [hidle (by simpa using hprep)] at hbusy
        cases hbusy
    deletable := fun key size hk => (h.deletable key size hk).mono rfl hlive }

theorem Inv.setTxn (h : Inv P s) (hid : s.txns[id]? = some t) (halive : t.stage.alive = true)
    (hstage : t'.stage.preparing = false) (hopen : ∀ outcome, t'.stage ≠ .finished outcome)
    (hst : t'.txn.Staged) (hbase : t'.txn.base = t.txn.base) : Inv P (s.setTxn id t') := by
  have hsound : t'.Sound P s.dataset s.history := by
    refine .of_not_preparing hstage hst ?_
    rw [hbase]
    exact (h.txns t (List.mem_of_getElem? hid)).base
  exact h.update hid halive (.refl (fun _ => False) _) (fun _ hn => hn.elim) hbase hsound
    (fun _ u _ _ => .of_not_preparing hstage u) (fun hp => by rw [hstage] at hp; cases hp)
    fun outcome _ ho => absurd ho (hopen outcome)

/-! ### The parts of a commit -/

/-- While a commit is in preparation no lifecycle operation runs. -/
theorem Inv.idle (h : Inv P s) (hid : s.txns[id]? = some t) (hprep : t.stage.preparing = true) :
    s.executor.isIdle = true := by
  by_contra hbusy
  rw [h.exclusive (by simpa using hbusy) t (List.mem_of_getElem? hid)] at hprep
  cases hprep

theorem Inv.of_commitStep {α : Type} (h : Inv P s) {txn : Transaction} {stage : Stage}
    {action : Action α} {next : α → Stage} (hid : s.txns[id]? = some ⟨txn, stage⟩)
    (halive : stage.alive = true) (hidle : s.executor.isIdle = true)
    (hadv : Effect.Within (Advances names) action) (hdef : DefiniteAction action)
    (hnames : ∀ n, names n → ∃ attempt, stage.attempt? = some attempt ∧ n.attempt? = some attempt)
    (hopen : ∀ a outcome, next a ≠ .finished outcome)
    (hnext : ∀ a d, action s.dataset = (.ok a, d) → Advances names s.dataset d →
      TxnState.Sound P d s.history ⟨txn, next a⟩ ∧ ∀ j u, j ≠ id → s.txns[j]? = some u →
      TxnState.Disjoint ⟨txn, next a⟩ u) :
    Inv P (commitStep s id txn action next) := by
  have hold := h.txns _ (List.mem_of_getElem? hid)
  unfold commitStep
  split
  · rename_i a d hrun
    have hd := hadv.of_eq hrun
    obtain ⟨hsound, hdisj⟩ := hnext a d hrun hd
    exact h.update hid halive hd hnames rfl hsound hdisj (fun _ => hidle)
      fun outcome _ ho => absurd ho (hopen a outcome)
  · rename_i e d hrun
    exact h.update hid halive (hadv.of_eq hrun) hnames rfl
      (.of_not_preparing rfl hold.staged hold.base) (fun _ u _ _ => .of_not_preparing rfl u)
      (fun hp => by cases hp)
      fun outcome version ho => by
        cases ho
        exact (hdef.of_eq hrun).not_visible version

section

variable {id : ℕ} {txn : Transaction} {ts : ℤ} {attempt : ℕ} {range : RowIdRange}

theorem Inv.start (h : Inv P s) (hid : s.txns[id]? = some ⟨txn, .staging⟩)
    (hidle : s.executor.isIdle = true) (clock : Option ℕ) :
    Inv P (commitStep s id txn (issueTimestamp clock) .started) := by
  have hold := h.txns _ (List.mem_of_getElem? hid)
  refine h.of_commitStep hid rfl hidle (advances_issueTimestamp (fun _ => False) clock)
    (definite_issueTimestamp clock) (fun _ hn => hn.elim) (fun _ _ => by simp) fun ts d _ _ => ?_
  exact ⟨.of_unused rfl rfl trivial hold.staged hold.base, fun _ u _ _ => .of_unused rfl rfl u⟩

theorem Inv.number_nil (h : Inv P s) (hid : s.txns[id]? = some ⟨txn, .started ts⟩)
    (hnil : txn.pending = []) : Inv P (s.setTxn id ⟨txn, .prepared ts none [] none⟩) := by
  have hold := h.txns _ (List.mem_of_getElem? hid)
  have hfiles : FilesWritten P txn.schema 0 ts 0 (rowIdBase none) txn.pending [] [] := by
    rw [hnil]
    exact .nil
  have hsound : TxnState.Sound P s.dataset s.history ⟨txn, .prepared ts none [] none⟩ :=
    .of_unused rfl rfl ⟨0, [], [], rfl, by simp, by simp, ⟨by simp, by simp, hfiles⟩,
      fun _ => hnil, by simp⟩ hold.staged hold.base
  exact h.update hid rfl (.refl (fun _ => False) _) (fun _ hn => hn.elim) rfl hsound
    (fun _ u _ _ => .of_unused rfl rfl u) (fun _ => h.idle hid rfl) fun _ _ ho => by cases ho

theorem Inv.number (h : Inv P s) (hid : s.txns[id]? = some ⟨txn, .started ts⟩)
    (faults : WriteFaults) :
    Inv P (commitStep s id txn (takeAttempt txn faults) (.numbered ts)) := by
  have hold := h.txns _ (List.mem_of_getElem? hid)
  refine h.of_commitStep hid rfl (h.idle hid rfl) (advances_takeAttempt (fun _ => False) txn faults)
    (definite_takeAttempt txn faults) (fun _ hn => hn.elim) (fun _ _ => by simp)
    fun attempt d hrun _ => ?_
  obtain ⟨rfl, rfl⟩ := takeAttempt_eq_ok hrun
  constructor
  · exact {
      staged := hold.staged
      base := hold.base
      attempt_lt := fun a ha => by
        cases ha
        exact Nat.lt_succ_self _
      names := fun a ha g hg n hn => by
        cases ha
        exact h.recorded.not_nextAttempt hg hn
      range := fun r hr => by cases hr
      ids := fun i hi => absurd hi (TxnState.not_claims rfl i)
      written := trivial }
  · intro j u _ hu
    refine ⟨fun a ha hua => ?_, fun i hi => absurd hi (TxnState.not_claims rfl i)⟩
    cases ha
    exact absurd ((h.txns u (List.mem_of_getElem? hu)).attempt_lt _ hua) (Nat.lt_irrefl _)

theorem Inv.claim (h : Inv P s) (hid : s.txns[id]? = some ⟨txn, .numbered ts attempt⟩)
    (faults : ℕ → ReservationFaults) :
    Inv P (commitStep s id txn (claimForPending txn faults) (.claimed ts attempt)) := by
  have hold := h.txns _ (List.mem_of_getElem? hid)
  refine h.of_commitStep hid rfl (h.idle hid rfl)
    (advances_claimForPending (fun _ => False) txn faults) (definite_claimForPending txn faults)
    (fun _ hn => hn.elim) (fun _ _ => by simp) fun range d hrun hadv => ?_
  obtain ⟨hbase, hlen, hend⟩ := claimForPending_eq_ok hrun
  -- the ids of the range are new, so neither published rows nor other ranges have them
  have hnew : ∀ i, TxnState.Claims ⟨txn, .claimed ts attempt range⟩ i →
      s.dataset.nextRowId ≤ i := by
    rintro i ⟨r, hr, hle, _⟩
    cases hr
    omega
  constructor
  · exact {
      staged := hold.staged
      base := hold.base
      attempt_lt := fun a ha => (hold.attempt_lt a ha).trans_le hadv.attempts_le
      names := hold.names
      range := fun r hr => by
        cases hr
        exact ⟨hlen, hend.le⟩
      ids := fun i hi g hg => by
        by_contra hown
        have := h.recorded.ownsRow_lt hg (by simpa using hown)
        have := hnew i hi
        omega
      written := trivial }
  · intro j u hj hu
    refine ⟨(h.apart id j _ u hj.symm hid hu).attempts, fun i hi hui => ?_⟩
    obtain ⟨r, hr, _, hlt⟩ := hui
    have := ((h.txns u (List.mem_of_getElem? hu)).range r hr).2
    have := hnew i hi
    omega

/-- Transactions work under the schema of a published version. -/
theorem Inv.wellNamed_txn (h : Inv P s) {t : TxnState} (ht : t ∈ s.txns) :
    WellNamed t.txn.schema := by
  have hsound := h.txns t ht
  obtain ⟨g, hg, hbase⟩ := hsound.base
  obtain ⟨cat, hv, _⟩ := h.recorded.valid_of_mem hg
  rw [hsound.staged.schema_eq, ← hbase]
  exact hv.wellNamed

theorem Inv.write (h : Inv P s) (hid : s.txns[id]? = some ⟨txn, .claimed ts attempt range⟩)
    (faults : WriteFaults) :
    Inv P (commitStep s id txn (writePendingBatches P txn.pending attempt range ts faults.files)
      (.written ts attempt range)) := by
  have hold := h.txns _ (List.mem_of_getElem? hid)
  refine h.of_commitStep hid rfl (h.idle hid rfl)
    (advances_writePendingBatches P txn.pending attempt range ts faults.files)
    (definite_writePendingBatches P txn.pending attempt range ts faults.files)
    (fun n hn => ⟨attempt, rfl, hn⟩) (fun _ _ => by simp) fun written d hrun hadv => ?_
  have hw := h.wellNamed_txn (List.mem_of_getElem? hid)
  exact ⟨hold.next hadv rfl rfl (writePendingBatches_eq_ok hw hold.staged hrun),
    fun j u hj hu => (h.apart id j _ u hj.symm hid hu).next rfl rfl⟩

theorem Inv.index {files : WrittenFiles} (h : Inv P s)
    (hid : s.txns[id]? = some ⟨txn, .written ts attempt range files⟩) (faults : WriteFaults) :
    Inv P (commitStep s id txn (indexWritten P attempt files faults)
      (.prepared ts (some (attempt, range)) files.files)) := by
  have hold := h.txns _ (List.mem_of_getElem? hid)
  refine h.of_commitStep hid rfl (h.idle hid rfl) (advances_indexWritten P attempt files faults)
    (definite_indexWritten P attempt files faults)
    (fun n hn => ⟨attempt, rfl, hn⟩) (fun _ _ => by simp) fun segment d hrun hadv => ?_
  obtain ⟨hget, hnone, hseg⟩ := indexWritten_eq_ok hrun
  obtain ⟨fs, hfs, hstored, hspec, hzone⟩ := hold.written
  refine ⟨hold.next hadv rfl rfl ⟨attempt, fs, files.inserts, hfs, fun f hf => ?_,
      fun p hp => (hseg p hp).2, ⟨hnone, fun p hp => hzone ▸ (hseg p hp).1, hspec⟩,
      (by simp), by simp⟩,
    fun j u hj hu => (h.apart id j _ u hj.symm hid hu).next rfl rfl⟩
  have hname : f.1.name ∈ fs.map fun f => f.1.name := List.mem_map_of_mem hf
  rw [hspec.names] at hname
  obtain ⟨i, _, hname⟩ := List.mem_map.mp hname
  rw [hget _ (by rw [← hname]; simp), hstored f hf]

end

/-! ### Publications -/

theorem record_of_current_eq (h : d.current = s.dataset.current) (event : Event) :
    s.record d event = s.history := by
  rw [record, if_pos (by rw [h])]

theorem record_published (h : snapshot.version = s.dataset.current.version + 1) (event : Event) :
    s.record (d.published snapshot writeSet) event =
      s.history ++ [Recorded.publication event d snapshot writeSet] := by
  have hne : (d.published snapshot writeSet).current.version ≠ s.dataset.current.version := by
    show snapshot.version ≠ _
    omega
  rw [record, if_neg hne]
  rfl

theorem Inv.publish (h : Inv P s) {last : Publication} {event : Event} {txns : List TxnState}
    {executor : Executor} (hadv : Advances names s.dataset d)
    (hfree : ∀ g ∈ s.history, ∀ n ∈ g.snapshot.manifest.objectNames, ¬ names n)
    (hlast : s.history.getLast? = some last)
    (hsucc : Successor P s.history last (Recorded.publication event d snapshot writeSet))
    (hversion : snapshot.manifest.version = snapshot.version)
    (hattempts : snapshot.manifest.nextAttemptId ≤ d.writeAttemptCounter)
    (hrowIds : snapshot.manifest.nextRowId ≤ d.nextRowId) (hevent : event.writeSet = writeSet)
    (htxns : ∀ t ∈ txns, t.Sound P (d.published snapshot writeSet)
      (s.history ++ [Recorded.publication event d snapshot writeSet]))
    (hapart : Apart TxnState.Disjoint txns)
    (houtcomes : Outcomes txns (s.history ++ [Recorded.publication event d snapshot writeSet]))
    (hheld : ∀ t ∈ txns, t.stage.alive = true → t ∈ s.txns)
    (hexcl : executor.isIdle = false → ∀ t ∈ txns, t.stage.preparing = false)
    (hnone : executor.remaining = []) :
    Inv P { s with
      dataset := d.published snapshot writeSet
      txns
      executor
      history := s.history ++ [Recorded.publication event d snapshot writeSet] } := by
  obtain ⟨g, hg, hcur⟩ := h.current_mem
  have hnext : snapshot.version = s.dataset.current.version + 1 := by
    obtain ⟨last', hlast', hcur', _⟩ := h.recorded.current
    rw [hlast] at hlast'
    cases hlast'
    rw [← hcur']
    exact hsucc.version
  have hrec := h.recorded.advances hadv (hcur ▸ hfree g hg)
  refine {
    recorded := hrec.publish hlast hsucc hversion hattempts hrowIds
    log := by
      show LogCovers (d.log.push snapshot.version writeSet) _ _
      rw [hadv.log_eq, ← hevent]
      exact h.log.push h.openedAt_le (Recorded.publication event d snapshot event.writeSet)
    openedAt_pos := h.openedAt_pos
    openedAt_le := h.openedAt_le.trans (by simp)
    kept := List.forall_mem_append.mpr ⟨fun g hg hl => ?_, fun g hg _ => ?_⟩
    holders := fun b hb => by
      obtain ⟨g, hg, hgb⟩ := h.holders b hb
      exact ⟨g, List.mem_append_left _ hg, hgb⟩
    txns := htxns
    apart := hapart
    outcomes := houtcomes
    exclusive := hexcl
    deletable := fun key size hk => by
      rw [hnone] at hk
      cases hk }
  · -- an older version is live only if it was held before
    have hle := h.recorded.version_le hg
    have hlive : g.snapshot.version ∈ s.live := by
      rcases mem_live.mp hl with hl | ⟨b, hb, hl⟩
      · have : snapshot.version = g.snapshot.version := hl
        omega
      · refine mem_live.mpr (.inr ⟨b, ?_, hl⟩)
        rcases mem_held.mp hb with hb | ⟨t, ht, halive, hbase⟩
        · exact mem_held.mpr (.inl hb)
        · exact mem_held.mpr (.inr ⟨t, hheld t ht halive, halive, hbase⟩)
    exact ((h.kept g hg hlive).advances hadv (hfree g hg)).insert (by rw [hversion]; omega)
  · obtain rfl := List.mem_singleton.mp hg
    exact Recorded.keptIn_publication hversion

/-- Without a publication only numbers and own names were used up. -/
theorem Inv.advance (h : Inv P s) {executor : Executor} (hadv : Advances names s.dataset d)
    (hfree : ∀ g ∈ s.history, ∀ n ∈ g.snapshot.manifest.objectNames, ¬ names n)
    (hquiet : ∀ t ∈ s.txns, t.stage.preparing = false) (hnone : executor.remaining = []) :
    Inv P { s with dataset := d, executor } := by
  obtain ⟨g, hg, hcur⟩ := h.current_mem
  have hlive : ∀ version ∈ live { s with dataset := d, executor }, version ∈ s.live := by
    refine fun version hv => live_subset ?_ (fun b hb => .inl ?_) hv
    · exact hadv.current_eq
    · exact hb
  exact { h with
    recorded := h.recorded.advances hadv (hcur ▸ hfree g hg)
    log := by
      show LogCovers d.log s.history s.openedAt
      rw [hadv.log_eq]
      exact h.log
    kept := fun g hg hl => (h.kept g hg (hlive _ hl)).advances hadv (hfree g hg)
    txns := fun t ht =>
      .of_not_preparing (hquiet t ht) (h.txns t ht).staged (h.txns t ht).base
    exclusive := fun _ => hquiet
    deletable := fun key size hk => by
      rw [hnone] at hk
      cases hk }

end StrataDB.Txn.System
