import StrataDB.Txn.Phases
import StrataDB.Txn.Records
import StrataDB.Txn.System

/-! The invariant of the system: the handle agrees with the record of its
publications, what a transaction in preparation uses is used by nobody else,
every held version is on the store, and the outcomes tell what was published. -/

namespace StrataDB.Txn

open Lib Arrow Index Storage

/-! ### Transactions -/

/-- A transaction that is not in preparation uses neither attempt id nor row ids. -/
theorem Stage.unused {stage : Stage} (h : stage.preparing = false) :
    stage.attempt? = none ∧ stage.range? = none := by
  cases stage <;> first | exact ⟨rfl, rfl⟩ | cases h

namespace TxnState

/-- What the preparation has left on the store so far. -/
def Written (P : Platform) (store : Store) : TxnState → Prop
  | ⟨t, .written ts attempt range written⟩ =>
    ∃ files, files.map Prod.fst = written.files ∧
      (∀ f ∈ files, store.get (.data f.1.name) = some (.rows f.2)) ∧
      FilesWritten P t.schema attempt ts 0 range.base t.pending files written.inserts ∧
      written.zoneMap = zoneMapOf (files.map fun f => f.1.stats)
  | ⟨t, .prepared ts claim entries segment⟩ =>
    ∃ attempt files inserts, files.map Prod.fst = entries ∧
      (∀ f ∈ files, store.get (.data f.1.name) = some (.rows f.2)) ∧
      (∀ p ∈ segment, store.get (.data p.entry.name) = some (.segment p.reader)) ∧
      Prepared P t ts attempt (rowIdBase claim) files inserts segment ∧
      (claim = none → t.pending = []) ∧ ∀ c ∈ claim, c.1 = attempt
  | _ => True

/-- The range of a preparation holds this id. -/
def Claims (t : TxnState) (i : ℕ) : Prop :=
  ∃ range, t.stage.range? = some range ∧ range.base ≤ i ∧ i < range.base + range.len

/-- Two transactions use different attempt ids and different row ids. -/
structure Disjoint (t t' : TxnState) : Prop where
  attempts : ∀ attempt, t.stage.attempt? = some attempt → t'.stage.attempt? ≠ some attempt
  ids : ∀ i, t.Claims i → ¬ t'.Claims i

theorem Disjoint.symm {t t' : TxnState} (h : t.Disjoint t') : t'.Disjoint t :=
  ⟨fun a ha hb => h.attempts a hb ha, fun i hi hj => h.ids i hj hi⟩

/-- A transaction against the handle and its record. -/
structure Sound (P : Platform) (d : Dataset) (hs : List Publication) (t : TxnState) : Prop where
  staged : t.txn.Staged
  base : ∃ h ∈ hs, h.snapshot = t.txn.base
  attempt_lt : ∀ attempt, t.stage.attempt? = some attempt → attempt < d.writeAttemptCounter
  names : ∀ attempt, t.stage.attempt? = some attempt → ∀ h ∈ hs,
    ∀ n ∈ h.snapshot.manifest.objectNames, n.attempt? ≠ some attempt
  range : ∀ range, t.stage.range? = some range →
    range.len = t.txn.rows.length ∧ range.base + range.len ≤ d.nextRowId
  ids : ∀ i, t.Claims i → ∀ h ∈ hs, h.snapshot.ownsRow i = false
  written : t.Written P d.store

section

variable {P : Platform} {d d' : Dataset} {hs : List Publication} {t : TxnState}
  {names : ObjectName → Prop}

theorem not_claims (h : t.stage.range? = none) (i : ℕ) : ¬ t.Claims i := by
  rintro ⟨range, hrange, _⟩
  rw [h] at hrange
  cases hrange

theorem Sound.of_unused (hattempt : t.stage.attempt? = none) (hrange : t.stage.range? = none)
    (hwritten : t.Written P d.store) (hst : t.txn.Staged)
    (hbase : ∃ h ∈ hs, h.snapshot = t.txn.base) : t.Sound P d hs where
  staged := hst
  base := hbase
  attempt_lt a ha := by simp [hattempt] at ha
  names a ha := by simp [hattempt] at ha
  range r hr := by simp [hrange] at hr
  ids i hi := absurd hi (not_claims hrange i)
  written := hwritten

theorem Sound.of_not_preparing (hstage : t.stage.preparing = false) (hst : t.txn.Staged)
    (hbase : ∃ h ∈ hs, h.snapshot = t.txn.base) : t.Sound P d hs := by
  obtain ⟨hattempt, hrange⟩ := Stage.unused hstage
  refine .of_unused hattempt hrange ?_ hst hbase
  rcases t with ⟨txn, stage⟩
  cases stage <;> trivial

theorem Disjoint.of_unused (hattempt : t.stage.attempt? = none) (hrange : t.stage.range? = none)
    (t' : TxnState) : t.Disjoint t' :=
  ⟨fun a ha => by simp [hattempt] at ha, fun i hi => absurd hi (not_claims hrange i)⟩

theorem Disjoint.of_not_preparing (h : t.stage.preparing = false) (t' : TxnState) :
    t.Disjoint t' :=
  .of_unused (Stage.unused h).1 (Stage.unused h).2 t'

/-- What a preparation wrote stays when its own names are left alone. -/
theorem Written.of_get_eq {store store' : Store} (h : t.Written P store)
    (hget : ∀ attempt, t.stage.attempt? = some attempt → ∀ n, n.attempt? = some attempt →
      store'.get (.data n) = store.get (.data n)) : t.Written P store' := by
  rcases t with ⟨txn, stage⟩
  cases stage with
  | written ts attempt range written =>
    obtain ⟨files, hfiles, hstored, hspec, hzone⟩ := h
    refine ⟨files, hfiles, fun f hf => ?_, hspec, hzone⟩
    have hname : f.1.name ∈ files.map fun f => f.1.name := List.mem_map_of_mem hf
    rw [hspec.names] at hname
    obtain ⟨i, _, hname⟩ := List.mem_map.mp hname
    rw [hget attempt rfl _ (by rw [← hname]; rfl), hstored f hf]
  | prepared ts claim entries segment =>
    obtain ⟨attempt, files, inserts, hfiles, hstored, hseg, hprep, hnil, hclaim⟩ := h
    have hown : ∀ n ∈ files.map (fun f => f.1.name) ++
        (segment.map fun p => p.entry.name).toList,
        store'.get (.data n) = store.get (.data n) := by
      intro n hn
      cases claim with
      | none =>
        obtain ⟨rfl, rfl⟩ := hprep.nil (hnil rfl)
        simp at hn
      | some c => exact hget attempt (by rw [← hclaim c rfl]; rfl) n (hprep.names n hn)
    refine ⟨attempt, files, inserts, hfiles, fun f hf => ?_, fun p hp => ?_, hprep, hnil, hclaim⟩
    · rw [hown _ (List.mem_append_left _ (List.mem_map_of_mem hf)), hstored f hf]
    · rw [hown _ (List.mem_append_right _ (by simp [Option.mem_def.mp hp])), hseg p hp]
  | _ => trivial

/-- What others do before a publication keeps a transaction sound. -/
theorem Sound.advances (h : t.Sound P d hs) (ha : Advances names d d')
    (hnames : ∀ attempt, t.stage.attempt? = some attempt → ∀ n, names n →
      n.attempt? ≠ some attempt) : t.Sound P d' hs where
  staged := h.staged
  base := h.base
  attempt_lt a hat := (h.attempt_lt a hat).trans_le ha.attempts_le
  names := h.names
  range r hr := ⟨(h.range r hr).1, (h.range r hr).2.trans ha.nextRowId_le⟩
  ids := h.ids
  written := h.written.of_get_eq fun a hat n hn =>
    ha.data_eq n fun hmem => hnames a hat n hmem hn

/-- A preparation goes on with the same attempt id and the same row ids. -/
theorem Sound.next {txn : Transaction} {stage stage' : Stage}
    (h : Sound P d hs ⟨txn, stage⟩) (ha : Advances names d d')
    (hattempt : stage'.attempt? = stage.attempt?) (hrange : stage'.range? = stage.range?)
    (hwritten : Written P d'.store ⟨txn, stage'⟩) : Sound P d' hs ⟨txn, stage'⟩ where
  staged := h.staged
  base := h.base
  attempt_lt a hat := (h.attempt_lt a (hattempt ▸ hat)).trans_le ha.attempts_le
  names a hat := h.names a (hattempt ▸ hat)
  range r hr := ⟨(h.range r (hrange ▸ hr)).1, (h.range r (hrange ▸ hr)).2.trans ha.nextRowId_le⟩
  ids i := fun ⟨r, hr, hi⟩ => h.ids i ⟨r, hrange ▸ hr, hi⟩
  written := hwritten

theorem Disjoint.next {txn : Transaction} {stage stage' : Stage}
    (h : Disjoint ⟨txn, stage⟩ t) (hattempt : stage'.attempt? = stage.attempt?)
    (hrange : stage'.range? = stage.range?) : Disjoint ⟨txn, stage'⟩ t where
  attempts a hat := h.attempts a (hattempt ▸ hat)
  ids i := fun ⟨r, hr, hi⟩ => h.ids i ⟨r, hrange ▸ hr, hi⟩

/-- A publication by somebody else keeps a transaction sound. -/
theorem Sound.publish (h : t.Sound P d hs) {new : Publication} {snapshot : Snapshot}
    {writeSet : List ℕ}
    (hnames : ∀ attempt, t.stage.attempt? = some attempt →
      ∀ n ∈ new.snapshot.manifest.objectNames, n.attempt? ≠ some attempt)
    (hids : ∀ i, t.Claims i → new.snapshot.ownsRow i = false) :
    t.Sound P (d.published snapshot writeSet) (hs ++ [new]) where
  staged := h.staged
  base := by
    obtain ⟨g, hg, hbase⟩ := h.base
    exact ⟨g, List.mem_append_left _ hg, hbase⟩
  attempt_lt := h.attempt_lt
  names a ha := List.forall_mem_append.mpr ⟨h.names a ha, by simpa using hnames a ha⟩
  range := h.range
  ids i hi := List.forall_mem_append.mpr ⟨h.ids i hi, by simpa using hids i hi⟩
  written := h.written.of_get_eq fun _ _ _ _ =>
    Store.get_insert_of_ne _ _ (by simp [Manifest.key])

end

end TxnState

/-! ### Outcomes -/

/-- The transaction whose commit the event is. -/
def Event.txn? : Event → Option ℕ
  | .commit txn .. => some txn
  | _ => none

/-- The commit event of a transaction. -/
def Transaction.event (t : Transaction) (id rowIdBase : ℕ) (ts : ℤ) : Event :=
  .commit id t.base.version t.writeSet t.pending rowIdBase ts

/-- A definite error is not the outcome of a visible transaction. -/
theorem TxnError.Definite.not_visible {α : Type} {e : TxnError} (h : e.Definite) (version : ℕ) :
    ¬ VisibleResult (α := α) version (.error e) := by
  rintro (⟨_, he⟩ | ⟨source, he⟩)
  · cases he
  · exact h version source (Except.error.inj he)

/-- The commits in the record are those of the transactions whose outcome says
that they are visible, each of them once. -/
structure Outcomes (txns : List TxnState) (hs : List Publication) : Prop where
  visible : ∀ h ∈ hs, ∀ id, h.event.txn? = some id → ∃ t outcome rowIdBase ts,
    txns[id]? = some ⟨t, .finished outcome⟩ ∧ VisibleResult h.snapshot.version outcome ∧
      h.event = t.event id rowIdBase ts ∧ t.base.version < h.snapshot.version
  published : ∀ id t outcome version, txns[id]? = some ⟨t, .finished outcome⟩ →
    VisibleResult version outcome → ∃ h ∈ hs, h.event.txn? = some id
  once : Apart (fun h h' => ∀ id, h.event.txn? = some id → h'.event.txn? ≠ some id) hs

namespace Outcomes

variable {txns : List TxnState} {hs : List Publication}

variable {id : ℕ} {new : Publication}

/-- A transaction that goes on, or ends without a publication. -/
theorem set (h : Outcomes txns hs) {t t' : TxnState} (hid : txns[id]? = some t)
    (halive : t.stage.alive = true)
    (hnew : ∀ outcome version, t'.stage = .finished outcome → ¬ VisibleResult version outcome) :
    Outcomes (txns.set id t') hs where
  visible g hg i hi := by
    obtain ⟨u, outcome, base, ts, hu, hrest⟩ := h.visible g hg i hi
    refine ⟨u, outcome, base, ts, ?_, hrest⟩
    rw [List.getElem?_set_ne, hu]
    rintro rfl
    rw [hid] at hu
    cases hu
    cases halive
  published i u outcome version hu hv := by
    rcases getElem?_set_cases hu with ⟨rfl, hut⟩ | ⟨_, hu⟩
    · exact absurd hv (hnew outcome version (by rw [← hut]))
    · exact h.published i u outcome version hu hv
  once := h.once

theorem begin (h : Outcomes txns hs) (t : Transaction) :
    Outcomes (txns ++ [⟨t, .staging⟩]) hs where
  visible g hg i hi := by
    obtain ⟨u, outcome, base, ts, hu, hrest⟩ := h.visible g hg i hi
    refine ⟨u, outcome, base, ts, ?_, hrest⟩
    rw [List.getElem?_append_left (List.getElem?_eq_some_iff.mp hu).1, hu]
  published i u outcome version hu hv := by
    rcases getElem?_concat_cases hu with ⟨_, hut⟩ | hu
    · cases hut
    · exact h.published i u outcome version hu hv
  once := h.once

/-- Transactions are lost with their handle, finished ones stay finished. -/
theorem reopen (h : Outcomes txns hs) :
    Outcomes (txns.map fun t => if t.stage.alive then ⟨t.txn, .dropped⟩ else t) hs where
  visible g hg i hi := by
    obtain ⟨u, outcome, base, ts, hu, hrest⟩ := h.visible g hg i hi
    refine ⟨u, outcome, base, ts, ?_, hrest⟩
    rw [List.getElem?_map, hu]
    rfl
  published i u outcome version hu hv := by
    rw [List.getElem?_map, Option.map_eq_some_iff] at hu
    obtain ⟨t, ht, hu⟩ := hu
    split at hu
    · cases hu
    · exact h.published i u outcome version (by rw [ht, hu]) hv
  once := h.once

theorem once_publish (h : Outcomes txns hs)
    (hnew : ∀ id, new.event.txn? = some id → ∀ g ∈ hs, g.event.txn? ≠ some id) :
    Apart (fun h h' : Publication => ∀ id, h.event.txn? = some id → h'.event.txn? ≠ some id)
      (hs ++ [new]) :=
  h.once.concat fun g hg =>
    ⟨fun i hi => hnew i hi g hg, fun i hi hi' => hnew i hi' g hg hi⟩

theorem publish_other (h : Outcomes txns hs) (hnew : new.event.txn? = none) :
    Outcomes txns (hs ++ [new]) where
  visible := List.forall_mem_append.mpr ⟨h.visible, by simp [hnew]⟩
  published i t outcome version ht hv := by
    obtain ⟨g, hg, hi⟩ := h.published i t outcome version ht hv
    exact ⟨g, List.mem_append_left _ hg, hi⟩
  once := h.once_publish fun id hid => by simp [hnew] at hid

theorem publish (h : Outcomes txns hs) {rowIdBase : ℕ} {t : Transaction} {stage : Stage} {ts : ℤ}
    {outcome : Except TxnError Unit} (hid : txns[id]? = some ⟨t, stage⟩)
    (halive : stage.alive = true) (hevent : new.event = t.event id rowIdBase ts)
    (hv : VisibleResult new.snapshot.version outcome)
    (hbase : t.base.version < new.snapshot.version) :
    Outcomes (txns.set id ⟨t, .finished outcome⟩) (hs ++ [new]) := by
  have hother : ∀ g ∈ hs, g.event.txn? ≠ some id := by
    intro g hg hi
    obtain ⟨u, outcome', _, _, hu, _⟩ := h.visible g hg id hi
    rw [hid] at hu
    cases hu
    cases halive
  have htxn : new.event.txn? = some id := by rw [hevent]; rfl
  have hself : (txns.set id ⟨t, .finished outcome⟩)[id]? = some ⟨t, .finished outcome⟩ := by
    rw [List.getElem?_set_self (List.getElem?_eq_some_iff.mp hid).1]
  refine ⟨List.forall_mem_append.mpr ⟨fun g hg i hi => ?_, ?_⟩, fun i u r version hu hr => ?_,
    h.once_publish fun i hi g hg => ?_⟩
  · obtain ⟨u, outcome', base, ts', hu, hrest⟩ := h.visible g hg i hi
    refine ⟨u, outcome', base, ts', ?_, hrest⟩
    rw [List.getElem?_set_ne (by rintro rfl; exact hother g hg hi), hu]
  · intro g hg i hi
    obtain rfl := List.mem_singleton.mp hg
    rw [htxn] at hi
    obtain rfl := Option.some.inj hi
    exact ⟨t, outcome, rowIdBase, ts, hself, hv, hevent, hbase⟩
  · rcases getElem?_set_cases hu with ⟨rfl, _⟩ | ⟨_, hu⟩
    · exact ⟨new, List.mem_append_right _ List.mem_cons_self, htxn⟩
    · obtain ⟨g, hg, hi⟩ := h.published i u r version hu hr
      exact ⟨g, List.mem_append_left _ hg, hi⟩
  · rw [htxn] at hi
    obtain rfl := Option.some.inj hi
    exact hother g hg

end Outcomes

/-! ### The system -/

/-- Objects the running lifecycle operation is still to delete. -/
def Executor.remaining : Executor → List Candidate
  | .deleting candidates => candidates
  | _ => []

namespace System

variable {s : System}

theorem mem_live {version : ℕ} :
    version ∈ s.live ↔ s.dataset.current.version = version ∨ ∃ b ∈ s.held, b.version = version := by
  simp [live, liveVersions, eq_comm (a := version)]

theorem mem_held {b : Snapshot} :
    b ∈ s.held ↔ b ∈ s.holders ∨ ∃ t ∈ s.txns, t.stage.alive = true ∧ t.txn.base = b := by
  simp [held, and_assoc]

/-- The key belongs to no live version and is no reservation. -/
structure Deletable (s : System) (key : Key) : Prop where
  reservation : ∀ last, key ≠ .reservation last
  manifest : ∀ h ∈ s.history, h.snapshot.version ∈ s.live → key ≠ .manifest h.snapshot.version
  data : ∀ h ∈ s.history, h.snapshot.version ∈ s.live →
    ∀ n ∈ h.snapshot.manifest.objectNames, key ≠ .data n

structure Inv (P : Platform) (s : System) : Prop where
  recorded : Recorded P s.dataset s.history
  log : LogCovers s.dataset.log s.history s.openedAt
  openedAt_pos : 0 < s.openedAt
  openedAt_le : s.openedAt ≤ s.history.length
  kept : ∀ h ∈ s.history, h.snapshot.version ∈ s.live → h.KeptIn s.dataset.store
  holders : ∀ b ∈ s.holders, ∃ h ∈ s.history, h.snapshot = b
  txns : ∀ t ∈ s.txns, t.Sound P s.dataset s.history
  apart : Apart TxnState.Disjoint s.txns
  outcomes : Outcomes s.txns s.history
  exclusive : s.executor.isIdle = false → ∀ t ∈ s.txns, t.stage.preparing = false
  deletable : ∀ key size, .ok (key, size) ∈ s.executor.remaining → s.Deletable key

end System

end StrataDB.Txn
