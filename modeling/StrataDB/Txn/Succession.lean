import StrataDB.Txn.Compacted
import StrataDB.Txn.Migrated
import StrataDB.Txn.Records

/-! Each of the three writers publishes a successor of the current version. -/

namespace StrataDB.Txn

open Lib Arrow Index Storage

variable {P : Platform} {d d₁ : Dataset} {hs : List Publication} {last : Publication}
  {cat cat' : Catalog} {files : List (DataFileEntry × RecordBatch)}
  {segment : Option PublishedSegment}

/-- The current version with a catalog that is both in the store it was published
to and in the present one. -/
theorem Recorded.current_valid (hr : Recorded P d hs) :
    ∃ last cat, hs.getLast? = some last ∧ last.snapshot = d.current ∧ last ∈ hs ∧
      d.current.Valid P cat ∧ cat.StoredIn last.store ∧ cat.StoredIn d.store := by
  obtain ⟨last, hlast, hcur, hkept⟩ := hr.current
  obtain ⟨cat, hv, hstored⟩ := hr.valid_of_mem (List.mem_of_getLast? hlast)
  exact ⟨last, cat, hlast, hcur, List.mem_of_getLast? hlast, hcur ▸ hv, hstored,
    hkept.storedIn hv hstored⟩

variable {store : Store} {ts : ℤ}

theorem Catalog.StoredIn.insert (hs : cat.StoredIn store) (m : Manifest) :
    cat.StoredIn (store.insert m.key (.manifest m)) where
  files f hf := by rw [Store.get_insert_of_ne _ _ (by simp [Manifest.key]), hs.files f hf]
  segments g hg := by rw [Store.get_insert_of_ne _ _ (by simp [Manifest.key]), hs.segments g hg]

theorem Catalog.StoredIn.extend (hs : cat.StoredIn store)
    (hfiles : ∀ f ∈ files, store.get (.data f.1.name) = some (.rows f.2))
    (hsegment : ∀ p ∈ segment, store.get (.data p.entry.name) = some (.segment p.reader)) :
    (cat.extend files segment).StoredIn store where
  files := List.forall_mem_append.mpr ⟨hs.files, hfiles⟩
  segments g hg := by
    rcases Commits.mem_segments.mp hg with hg | ⟨p, hp, rfl⟩
    · exact hs.segments g hg
    · exact hsegment p hp

theorem Commits.successor {t : Transaction} {attempt base id : ℕ} {inserts : List VectorInsert}
    (h : Commits P d cat t ts attempt base files inserts segment)
    (hlast : last.snapshot = d.current) (hshown : cat.StoredIn last.store)
    (hstored : cat.StoredIn d.store)
    (hfiles : ∀ f ∈ files, d.store.get (.data f.1.name) = some (.rows f.2))
    (hsegment : ∀ p ∈ segment, d.store.get (.data p.entry.name) = some (.segment p.reader))
    (hfresh : ∀ i, base ≤ i → i < base + t.rows.length → ∀ g ∈ hs, g.snapshot.ownsRow i = false)
    (hdec : decodeManifest P.format (d.current.version + 1)
      (committed d t ts files segment).manifest = .ok (committed d t ts files segment).manifest) :
    Successor P hs last (Recorded.publication
      (.commit id t.base.version t.writeSet t.pending base ts) d
      (committed d t ts files segment) t.writeSet) := by
  have htomb := (committedSnapshot_tombstones h.latest h.staged h.live ts
    (d.current.version + 1) (files.map Prod.fst) segment).1
  constructor
  case version => rw [hlast]; rfl
  case shows =>
    refine ⟨cat.liveRows d.current.tombstones, ⟨cat, ?_, hshown, by rw [hlast]⟩,
      cat.extend files segment, h.valid hdec, ?_, h.liveRows⟩
    · rw [hlast]
      exact h.latest
    · exact (hstored.extend hfiles hsegment).insert _
  case targets => rw [hlast]; exact h.live
  case tombstones =>
    intro i
    show i ∈ t.writeSet ↔ i ∈ (committed d t ts files segment).tombstones ∧ _
    rw [htomb, hlast, List.mem_append]
    constructor
    · exact fun hi => ⟨.inr hi, (Snapshot.ownsLiveRow_iff.mp (h.live i hi)).2⟩
    · rintro ⟨hi | hi, hnot⟩
      · exact absurd hi hnot
      · exact hi
  case fresh =>
    intro i hi
    change i ∈ List.range' base t.rows.length at hi
    rw [List.mem_range'_1] at hi
    exact hfresh i hi.1 hi.2
  case attempts => rw [hlast]; exact h.attempts_le
  case rowIds => rw [hlast]; exact h.rowIds_le
  case schema =>
    refine .inl ⟨?_, ?_⟩
    · rw [Publication.schemaVersion, Publication.schemaVersion, hlast]
      rfl
    · rw [hlast]
      exact h.schema_eq

theorem Compacts.successor (h : Compacts P d d₁ cat files segment)
    (hlast : last.snapshot = d.current) (hshown : cat.StoredIn last.store)
    (hattempts : d.current.manifest.nextAttemptId ≤ d.writeAttemptCounter)
    (hids : d.current.manifest.nextRowId ≤ d.nextRowId)
    (hv : (compacted d d₁ ts files segment).Valid P (Catalog.fresh files segment)) :
    Successor P hs last
      (Recorded.publication .compaction d₁ (compacted d d₁ ts files segment) []) := by
  constructor
  case version => rw [hlast]; rfl
  case shows =>
    refine ⟨cat.liveRows d.current.tombstones, ⟨cat, ?_, hshown, by rw [hlast]⟩,
      Catalog.fresh files segment, hv, h.storedIn.insert _, h.liveRows⟩
    rw [hlast]
    exact h.source
  case targets => exact fun i hi => absurd hi List.not_mem_nil
  case tombstones =>
    intro i
    exact ⟨fun hi => absurd hi List.not_mem_nil, fun hi => absurd hi.1 List.not_mem_nil⟩
  case fresh => exact fun i hi => absurd hi List.not_mem_nil
  case attempts => rw [hlast]; exact hattempts.trans h.advances.attempts_le
  case rowIds => rw [hlast]; exact hids.trans h.advances.nextRowId_le
  case schema =>
    refine .inl ⟨?_, ?_⟩
    · rw [Publication.schemaVersion, Publication.schemaVersion, hlast]
      rfl
    · rw [hlast]
      rfl

theorem Migrates.successor {column : Field} (h : Migrates P d d₁ cat column cat')
    (hlast : last.snapshot = d.current) (hshown : cat.StoredIn last.store)
    (hv : (migrated d column ts cat').Valid P cat') :
    Successor P hs last
      (Recorded.publication (.migration column) d₁ (migrated d column ts cat') []) := by
  constructor
  case version => rw [hlast]; rfl
  case shows =>
    refine ⟨cat.liveRows d.current.tombstones, ⟨cat, ?_, hshown, by rw [hlast]⟩, cat', hv,
      h.stored.insert _, h.liveRows⟩
    rw [hlast]
    exact h.source
  case targets => exact fun i hi => absurd hi List.not_mem_nil
  case tombstones =>
    intro i
    rw [hlast]
    exact ⟨fun hi => absurd hi List.not_mem_nil, fun hi => absurd hi.1 hi.2⟩
  case fresh => exact fun i hi => absurd hi List.not_mem_nil
  case attempts => rw [hlast]; exact le_rfl
  case rowIds => rw [hlast]; exact le_rfl
  case schema =>
    refine .inr ⟨?_, ?_⟩
    · rw [Publication.schemaVersion, hlast, h.schemaVersion]
      exact Nat.lt_succ_self 1
    · rw [hlast]
      simp [Recorded.publication, migrated, withColumn]

end StrataDB.Txn
