import StrataDB.Txn.Ledger
import StrataDB.Txn.Opening

/-! The handle against the record of its publications: which manifests and objects
are on the store, how the counters relate to what was published, and what the
commit log holds. -/

namespace StrataDB.Txn

open Lib Arrow Index Storage

/-! ### Versions that are kept -/

/-- The manifest and the objects of a version are on the store, as they were when
it was published. -/
structure Publication.KeptIn (h : Publication) (store : Store) : Prop where
  manifest : store.get (.manifest h.snapshot.version) = some (.manifest h.snapshot.manifest)
  objects : ∀ n ∈ h.snapshot.manifest.objectNames, store.get (.data n) = h.store.get (.data n)

section

variable {P : Platform} {h : Publication} {names : ObjectName → Prop} {d d' : Dataset}

theorem Publication.KeptIn.advances (hk : h.KeptIn d.store) (ha : Advances names d d')
    (hnew : ∀ n ∈ h.snapshot.manifest.objectNames, ¬ names n) : h.KeptIn d'.store where
  manifest := by rw [ha.manifest_eq, hk.manifest]
  objects n hn := by rw [ha.data_eq n (hnew n hn), hk.objects n hn]

theorem Publication.KeptIn.insert (hk : h.KeptIn d.store) {m : Manifest}
    (hne : h.snapshot.version ≠ m.version) :
    h.KeptIn (d.store.insert m.key (.manifest m)) where
  manifest := by rw [Store.get_insert_of_ne _ _ (by simpa [Manifest.key] using hne), hk.manifest]
  objects n hn := by rw [Store.get_insert_of_ne _ _ (by simp [Manifest.key]), hk.objects n hn]

theorem Publication.KeptIn.erase {store : Store} (hk : h.KeptIn store) {key : Key}
    (hm : key ≠ .manifest h.snapshot.version)
    (hd : ∀ n ∈ h.snapshot.manifest.objectNames, key ≠ .data n) :
    h.KeptIn (store.erase key) where
  manifest := by rw [Store.get_erase, if_neg hm.symm, hk.manifest]
  objects n hn := by rw [Store.get_erase, if_neg (hd n hn).symm, hk.objects n hn]

theorem Publication.KeptIn.storedIn {store : Store} (hk : h.KeptIn store) {cat : Catalog}
    (hv : h.snapshot.Valid P cat) (hs : cat.StoredIn h.store) : cat.StoredIn store where
  files f hf := by rw [hk.objects _ (hv.file_name_mem hf), hs.files f hf]
  segments g hg := by rw [hk.objects _ (hv.segment_name_mem hg), hs.segments g hg]

end

/-! ### The handle and its record -/

structure Recorded (P : Platform) (d : Dataset) (hs : List Publication) : Prop where
  chain : Chain P hs
  current : ∃ last, hs.getLast? = some last ∧ last.snapshot = d.current ∧ last.KeptIn d.store
  listed : ∀ version object, d.store.get (.manifest version) = some object →
    ∃ h ∈ hs, h.snapshot.version = version ∧ object = .manifest h.snapshot.manifest
  attempts_le : d.current.manifest.nextAttemptId ≤ d.writeAttemptCounter
  rowIds_le : d.current.manifest.nextRowId ≤ d.nextRowId
  durable : Durable d.store d.nextRowId

namespace Recorded

variable {P : Platform} {d d' : Dataset} {hs : List Publication} {names : ObjectName → Prop}

variable {h : Publication} {n : ObjectName} {writeSet : List ℕ}

/-- Versions in the record are not above the current one. -/
theorem version_le (hr : Recorded P d hs) (hmem : h ∈ hs) :
    h.snapshot.version ≤ d.current.version := by
  obtain ⟨last, hlast, hcur, _⟩ := hr.current
  obtain ⟨hget, hpos⟩ := Chain.getElem?_of_getLast? hlast
  obtain ⟨i, hi⟩ := List.mem_iff_getElem?.mp hmem
  rw [← hcur, hr.chain.version hget, hr.chain.version hi]
  have := (List.getElem?_eq_some_iff.mp hi).1
  omega

theorem length_eq (hr : Recorded P d hs) : hs.length = d.current.version + 1 := by
  obtain ⟨last, hlast, hcur, _⟩ := hr.current
  obtain ⟨hget, hpos⟩ := Chain.getElem?_of_getLast? hlast
  rw [← hcur, hr.chain.version hget]
  omega

theorem eq_of_version (hr : Recorded P d hs) {h' : Publication} (hmem : h ∈ hs) (hmem' : h' ∈ hs)
    (heq : h.snapshot.version = h'.snapshot.version) : h = h' := by
  obtain ⟨i, hi⟩ := List.mem_iff_getElem?.mp hmem
  obtain ⟨j, hj⟩ := List.mem_iff_getElem?.mp hmem'
  rw [hr.chain.version hi, hr.chain.version hj] at heq
  subst heq
  rw [hi] at hj
  exact Option.some.inj hj

theorem latest (hr : Recorded P d hs) : Latest d.current d.store := by
  obtain ⟨last, _, hcur, hkept⟩ := hr.current
  refine ⟨by rw [← hcur]; exact hkept.manifest, fun version hsome => ?_⟩
  obtain ⟨object, hget⟩ := Option.isSome_iff_exists.mp hsome
  obtain ⟨h, hmem, rfl, _⟩ := hr.listed version object hget
  exact hr.version_le hmem

/-- The current version can be read, and shows what all events leave. -/
theorem valid (hr : Recorded P d hs) :
    ∃ cat, d.current.Valid P cat ∧ cat.StoredIn d.store ∧
      cat.liveRows d.current.tombstones = replay (hs.map Publication.event) := by
  obtain ⟨last, hlast, hcur, hkept⟩ := hr.current
  obtain ⟨hget, hpos⟩ := Chain.getElem?_of_getLast? hlast
  obtain ⟨cat, hv, hstored, hrows⟩ := hr.chain.shows hget
  rw [Nat.sub_add_cancel hpos, List.take_length] at hrows
  rw [hcur] at hv hrows
  exact ⟨cat, hv, hkept.storedIn (hcur ▸ hv) hstored, hrows⟩

/-- Every version of the record is valid on the store it was published to. -/
theorem valid_of_mem (hr : Recorded P d hs) (hmem : h ∈ hs) :
    ∃ cat, h.snapshot.Valid P cat ∧ cat.StoredIn h.store := by
  obtain ⟨i, hi⟩ := List.mem_iff_getElem?.mp hmem
  obtain ⟨cat, hv, hstored, _⟩ := hr.chain.shows hi
  exact ⟨cat, hv, hstored⟩

theorem nameBelow (hr : Recorded P d hs) (hmem : h ∈ hs)
    (hn : n ∈ h.snapshot.manifest.objectNames) :
    NameBelow d.writeAttemptCounter d.current.version n := by
  obtain ⟨cat, hv, _⟩ := hr.valid_of_mem hmem
  obtain ⟨last, hlast, hcur, _⟩ := hr.current
  have hle := (hr.chain.le_last hlast hmem).1
  rw [hcur] at hle
  exact (hv.names_below n hn).mono (hle.trans hr.attempts_le) (hr.version_le hmem)

theorem not_nextAttempt (hr : Recorded P d hs) (hmem : h ∈ hs)
    (hn : n ∈ h.snapshot.manifest.objectNames) : n.attempt? ≠ some d.writeAttemptCounter := by
  have := hr.nameBelow hmem hn
  cases n <;> simp only [NameBelow, ObjectName.attempt?, ne_eq, Option.some.injEq, reduceCtorEq,
    not_false_eq_true] at this ⊢ <;> omega

theorem not_nextMigration (hr : Recorded P d hs) (hmem : h ∈ hs)
    (hn : n ∈ h.snapshot.manifest.objectNames) : n.migration? ≠ some (d.current.version + 1) := by
  have := hr.nameBelow hmem hn
  cases n <;> simp only [NameBelow, ObjectName.migration?, ne_eq, Option.some.injEq, reduceCtorEq,
    not_false_eq_true] at this ⊢ <;> omega

theorem ownsRow_lt (hr : Recorded P d hs) (hmem : h ∈ hs) {i : ℕ}
    (hi : h.snapshot.ownsRow i = true) : i < d.nextRowId := by
  obtain ⟨cat, hv, _⟩ := hr.valid_of_mem hmem
  obtain ⟨last, hlast, hcur, _⟩ := hr.current
  have hle := (hr.chain.le_last hlast hmem).2.1
  rw [hcur] at hle
  have := hv.rowIds_lt i (hv.ownsRow_iff.mp hi)
  have := hr.rowIds_le
  omega

/-- What happens before a publication keeps the record. -/
theorem advances (hr : Recorded P d hs) (ha : Advances names d d')
    (hnew : ∀ n ∈ d.current.manifest.objectNames, ¬ names n) : Recorded P d' hs where
  chain := hr.chain
  current := by
    obtain ⟨last, hlast, hcur, hkept⟩ := hr.current
    refine ⟨last, hlast, by rw [hcur, ha.current_eq], hkept.advances ha ?_⟩
    rw [hcur]
    exact hnew
  listed version object hget := hr.listed version object (by rwa [ha.manifest_eq] at hget)
  attempts_le := by
    rw [ha.current_eq]
    exact hr.attempts_le.trans ha.attempts_le
  rowIds_le := by
    rw [ha.current_eq]
    exact hr.rowIds_le.trans ha.nextRowId_le
  durable := ha.durable hr.durable

/-- The record of a new version. -/
def publication (event : Event) (d : Dataset) (snapshot : Snapshot) (writeSet : List ℕ) :
    Publication :=
  ⟨event, snapshot, (d.published snapshot writeSet).store⟩

theorem keptIn_publication {event : Event} {snapshot : Snapshot}
    (hversion : snapshot.manifest.version = snapshot.version) :
    (publication event d snapshot writeSet).KeptIn (d.published snapshot writeSet).store where
  manifest := by
    show Store.get (d.store.insert snapshot.manifest.key _) _ = _
    rw [Manifest.key, hversion]
    exact Store.get_insert_self _ _ _
  objects _ _ := rfl

/-- A publication extends the record by one. -/
theorem publish (hr : Recorded P d hs) {last : Publication} (hlast : hs.getLast? = some last)
    {event : Event} {snapshot : Snapshot}
    (hsucc : Successor P hs last (publication event d snapshot writeSet))
    (hversion : snapshot.manifest.version = snapshot.version)
    (hattempts : snapshot.manifest.nextAttemptId ≤ d.writeAttemptCounter)
    (hrowIds : snapshot.manifest.nextRowId ≤ d.nextRowId) :
    Recorded P (d.published snapshot writeSet)
      (hs ++ [publication event d snapshot writeSet]) where
  chain := .next hr.chain hlast hsucc
  current := ⟨_, by rw [List.getLast?_append, List.getLast?_singleton]; rfl, rfl,
    keptIn_publication hversion⟩
  listed version object hget := by
    change Store.get (d.store.insert snapshot.manifest.key _) _ = _ at hget
    rw [Store.get_insert] at hget
    split at hget
    · rename_i heq
      refine ⟨_, List.mem_append_right _ List.mem_cons_self, ?_, (Option.some.inj hget).symm⟩
      rw [Manifest.key, hversion] at heq
      exact (Key.manifest.inj heq).symm
    · obtain ⟨h, hmem, hv, ho⟩ := hr.listed version object hget
      exact ⟨h, List.mem_append_left _ hmem, hv, ho⟩
  attempts_le := hattempts
  rowIds_le := hrowIds
  durable := hr.durable.mono fun _ => Store.get_insert_of_ne _ _ (by simp [Manifest.key])

/-- A deletion that spares the current version keeps the record. -/
theorem erase (hr : Recorded P d hs) {key : Key} (hm : key ≠ .manifest d.current.version)
    (hd : ∀ n ∈ d.current.manifest.objectNames, key ≠ .data n)
    (hres : ∀ last, key ≠ .reservation last) :
    Recorded P { d with store := d.store.erase key } hs where
  chain := hr.chain
  current := by
    obtain ⟨last, hlast, hcur, hkept⟩ := hr.current
    exact ⟨last, hlast, hcur, hkept.erase (by rw [hcur]; exact hm) (by rw [hcur]; exact hd)⟩
  listed version object hget := by
    rw [Store.get_erase] at hget
    split at hget
    · cases hget
    · exact hr.listed version object hget
  attempts_le := hr.attempts_le
  rowIds_le := hr.rowIds_le
  durable := hr.durable.mono fun last => by
    rw [Store.get_erase, if_neg (hres last).symm]

end Recorded

/-! ### The commit log -/

/-- The log holds the write sets of the last versions published by this handle,
as many as fit. -/
def LogCovers (log : CommitLog) (hs : List Publication) (openedAt : ℕ) : Prop :=
  log.entries = ((hs.drop openedAt).map fun h =>
    (h.snapshot.version, h.event.writeSet)).rtake log.capacity

variable {log : CommitLog} {hs : List Publication} {openedAt : ℕ}

theorem LogCovers.push (h : LogCovers log hs openedAt) (hle : openedAt ≤ hs.length)
    (new : Publication) :
    LogCovers (log.push new.snapshot.version new.event.writeSet) (hs ++ [new]) openedAt := by
  unfold LogCovers at h ⊢
  rw [CommitLog.push_entries, CommitLog.push_capacity, h, ringPush_rtake log.capacity_pos,
    List.drop_append_of_le_length hle, List.map_append]
  rfl

/-- The log is the end of the record, from some version after the opening on. -/
theorem LogCovers.entries_eq (h : LogCovers log hs openedAt) (hle : openedAt ≤ hs.length) :
    ∃ first, openedAt ≤ first ∧ first ≤ hs.length ∧ hs.length ≤ first + log.capacity ∧
      (first = hs.length → hs.length = openedAt) ∧
      log.entries = (hs.drop first).map fun h => (h.snapshot.version, h.event.writeSet) := by
  have hpos := log.capacity_pos
  refine ⟨openedAt + (hs.length - openedAt - log.capacity), by omega, by omega, by omega,
    by omega, ?_⟩
  rw [h, List.rtake, List.length_map, List.length_drop, ← List.map_drop, List.drop_drop]

theorem logCovers_new (capacity : ℕ) (hs : List Publication) :
    LogCovers (CommitLog.new capacity) hs hs.length := by
  rw [LogCovers, List.drop_length, List.map_nil, List.rtake_nil]
  rfl

end StrataDB.Txn
