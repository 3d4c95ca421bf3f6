import StrataDB.Txn.Phases
import StrataDB.Txn.System

/-! The row ids of a commit. The batches are laid out one after the other from the first
claimed id; since the claim is for as many ids as there are rows, the last batch ends
where the claim does. -/

namespace StrataDB.Txn

open Lib Arrow Index Storage

/-! ### Ids -/

/-- The ids of an inclusive range. -/
def idsOf : Option (ℕ × ℕ) → List ℕ
  | none => []
  | some (lo, hi) => List.range' lo (hi + 1 - lo)

theorem idsOf_rowIdRangeOf (first count : ℕ) :
    idsOf (rowIdRangeOf first count) = List.range' first count := by
  unfold rowIdRangeOf
  split
  · simp [idsOf, *]
  · rw [idsOf]
    congr 1
    omega

theorem rowIdRangeOf_eq_none {first count : ℕ} : rowIdRangeOf first count = none ↔ count = 0 := by
  simp [rowIdRangeOf]

/-- The vectors of the rows of a batch. -/
def vectorsOf (batch : RecordBatch) : List (Option Vector) :=
  batch.rows.map fun r =>
    (batch.schema.indexOf vectorColumn).bind fun k => Cell.toVector? (Row.cell r k)

/-- The vectors there are, under ids that count up from `base` with the rows. -/
def numbered (base : ℕ) (vectors : List (Option Vector)) : List VectorInsert :=
  (vectors.zipIdx base).filterMap fun p => p.1.map fun v => ⟨p.2, v⟩

theorem numbered_append (base : ℕ) (vectors vectors' : List (Option Vector)) :
    numbered base (vectors ++ vectors') =
      numbered base vectors ++ numbered (base + vectors.length) vectors' := by
  rw [numbered, List.zipIdx_append, List.filterMap_append]
  rfl

theorem numbered_ascending (base : ℕ) (vectors : List (Option Vector)) :
    ((numbered base vectors).map VectorInsert.rowId).Pairwise (· < ·) := by
  rw [numbered, List.map_filterMap]
  refine List.Pairwise.filterMap _ (R := fun p q => p.2 < q.2) ?_ ?_
  · intro p q hpq id hid id' hid'
    simp only [Option.map_map, Option.map_eq_some_iff] at hid hid'
    obtain ⟨_, _, rfl⟩ := hid
    obtain ⟨_, _, rfl⟩ := hid'
    exact hpq
  · rw [← List.pairwise_map (f := Prod.snd) (R := (· < ·)), List.zipIdx_map_snd]
    exact List.pairwise_lt_range'

variable {batch : RecordBatch} {base attempt i : ℕ} {inserts : List VectorInsert} {P : Platform}
  {ts : ℤ} {d d' : Dataset}

theorem buildVectorInserts_numbered (h : buildVectorInserts batch base = .ok inserts) :
    inserts = numbered base (vectorsOf batch) := by
  obtain ⟨rfl, _⟩ := buildVectorInserts_spec h 0
  rw [stagedRows, List.filterMap_map, numbered, vectorsOf, List.zipIdx_map, List.filterMap_map]
  refine List.filterMap_congr fun p _ => ?_
  rw [Function.comp_apply, Function.comp_apply]
  cases hk : batch.schema.indexOf vectorColumn with
  | none => simp [vectorOf, hk]
  | some k => simp [vectorOf_staged hk]

/-! ### The loop over the batches -/

/-- The file of one batch: it lists the ids from `base` on. -/
structure FileLaid (store : Store) (base : ℕ) (batch : RecordBatch) (entry : DataFileEntry) :
    Prop where
  rowCount : entry.rowCount = batch.numRows
  range : entry.rowIdRange = rowIdRangeOf base batch.numRows
  stored : ∃ file fields, store.get (.data entry.name) = some (.rows file) ∧
    file.schema.fields = fields ++ [rowIdField, timestampField] ∧
    file.rows.map storedRowId = List.range' base batch.numRows

/-- The files of some batches, one after the other. -/
def Laid (store : Store) : ℕ → List RecordBatch → List DataFileEntry → Prop
  | _, [], [] => True
  | base, batch :: pending, entry :: entries =>
    FileLaid store base batch entry ∧ Laid store (base + batch.numRows) pending entries
  | _, _, _ => False

theorem writePendingBatch_layout {input : FileInput} {entry : DataFileEntry}
    (h : writePendingBatch P attempt ts input i base batch d = (.ok (entry, inserts), d')) :
    entry.name = .rowFile attempt i ∧ FileLaid d'.store base batch entry ∧
      inserts = numbered base (vectorsOf batch) := by
  unfold writePendingBatch at h
  simp only [Effect.bind_eq_ok, Effect.lift_apply, Effect.pure_apply, Prod.mk.injEq] at h
  obtain ⟨inserts', _, ⟨hins, rfl⟩, physical, _, ⟨hphys, rfl⟩, _, d₁, hput, hentry, rfl⟩ := h
  obtain ⟨rfl, rfl⟩ := Prod.mk.inj (Except.ok.inj hentry)
  obtain ⟨hrows, encoded, _, hschema⟩ := physicalBatch_eq_ok hphys
  refine ⟨rfl, ⟨rfl, rfl, physical, encoded.schema.fields, putObject_eq_ok hput, ?_, ?_⟩,
    buildVectorInserts_numbered hins⟩
  · rw [hschema]
  · rw [hrows, stagedRows_rowIds]
    rfl

theorem writeBatchesFrom_layout {inputs : ℕ → FileInput} {pending : List RecordBatch}
    {written : List (DataFileEntry × List VectorInsert)} {last : ℕ}
    (h : writeBatchesFrom P attempt ts inputs i base pending d = (.ok (written, last), d')) :
    last = base + (pending.flatMap RecordBatch.rows).length ∧
      Laid d'.store base pending (written.map Prod.fst) ∧
      written.flatMap Prod.snd = numbered base (pending.flatMap vectorsOf) := by
  induction pending generalizing i base d written last with
  | nil =>
    simp only [writeBatchesFrom, Effect.pure_apply, Prod.mk.injEq, Except.ok.injEq] at h
    obtain ⟨⟨rfl, rfl⟩, rfl⟩ := h
    exact ⟨rfl, trivial, rfl⟩
  | cons batch pending ih =>
    simp only [writeBatchesFrom, Effect.bind_eq_ok, Effect.pure_apply, Prod.mk.injEq] at h
    obtain ⟨⟨entry, inserts⟩, d₁, hfirst, ⟨others, last'⟩, d₂, hothers, heq, rfl⟩ := h
    obtain ⟨rfl, rfl⟩ := Prod.mk.inj (Except.ok.inj heq)
    obtain ⟨hname, hfile, hinserts⟩ := writePendingBatch_layout hfirst
    obtain ⟨hlast, hlaid, hmore⟩ := ih hothers
    -- The later files have larger indices in their names.
    have hkept := ((within_writeBatchesFrom P attempt ts inputs (i + 1) (base + batch.numRows)
      pending).of_eq hothers).data_eq (n := entry.name) (by
        rintro ⟨k, hk, hn⟩
        rw [hname] at hn
        cases hn
        omega)
    refine ⟨?_, ⟨⟨hfile.rowCount, hfile.range, ?_⟩, hlaid⟩, ?_⟩
    · rw [hlast, List.flatMap_cons, List.length_append, RecordBatch.numRows]
      omega
    · rw [hkept]
      exact hfile.stored
    · rw [List.flatMap_cons, List.flatMap_cons, numbered_append, hmore, hinserts]
      simp [vectorsOf, RecordBatch.numRows]

namespace Laid

variable {store : Store} {base : ℕ} {pending : List RecordBatch} {entries : List DataFileEntry}

theorem forall₂ (h : Laid store base pending entries) :
    List.Forall₂ (fun batch entry => ∃ first, FileLaid store first batch entry) pending
      entries := by
  induction pending generalizing base entries with
  | nil =>
    cases entries with
    | nil => exact .nil
    | cons => cases h
  | cons batch pending ih =>
    cases entries with
    | nil => cases h
    | cons entry entries => exact .cons ⟨base, h.1⟩ (ih h.2)

/-- The ranges together are the ids from the first to the last. -/
theorem ids (h : Laid store base pending entries) :
    entries.flatMap (fun entry => idsOf entry.rowIdRange) =
      List.range' base (pending.flatMap RecordBatch.rows).length := by
  induction pending generalizing base entries with
  | nil =>
    cases entries with
    | nil => rfl
    | cons => cases h
  | cons batch pending ih =>
    cases entries with
    | nil => cases h
    | cons entry entries =>
      rw [List.flatMap_cons, ih h.2, h.1.range, idsOf_rowIdRangeOf, List.flatMap_cons,
        List.length_append, ← List.range'_append_1]
      rfl

end Laid

/-- A commit lays out its rows inside its claim: the ranges of its files are the claimed
ids in order, each file lists its own, and the vectors come in the order of their ids. -/
theorem commit_layout {P : Platform} {t : Transaction} {reservation : ℕ → ReservationFaults}
    {d₀ d₁ : Dataset} {range : RowIdRange}
    (hclaim : claimForPending t reservation d₀ = (.ok range, d₁)) (attempt : ℕ) (ts : ℤ)
    (inputs : ℕ → FileInput) :
    range.base + range.len < u64Bound ∧
    (∀ d d' rounds last, writeBatchesFrom P attempt ts inputs 0 range.base t.pending d =
      (.ok (rounds, last), d') → last = range.base + range.len) ∧
    ∀ d d' written,
      writePendingBatches P t.pending attempt range ts inputs d = (.ok written, d') →
      List.Forall₂ (fun batch entry => entry.rowCount = batch.numRows ∧
        (entry.rowIdRange = none ↔ batch.rows = []) ∧
        ∃ file fields, d'.store.get (.data entry.name) = some (.rows file) ∧
          file.schema.fields = fields ++ [rowIdField, timestampField] ∧
          file.rows.map storedRowId = idsOf entry.rowIdRange) t.pending written.files ∧
      written.files.flatMap (fun entry => idsOf entry.rowIdRange) =
        List.range' range.base range.len ∧
      (written.files.Pairwise fun a b =>
        ∀ i ∈ idsOf a.rowIdRange, ∀ j ∈ idsOf b.rowIdRange, i < j) ∧
      written.inserts = numbered range.base (t.pending.flatMap vectorsOf) ∧
      strictlyAscending (written.inserts.map VectorInsert.rowId) = true := by
  obtain ⟨_, hlen, _⟩ := claimForPending_eq_ok hclaim
  refine ⟨claimForPending_lt hclaim, fun d d' rounds last hrounds => ?_, ?_⟩
  · rw [(writeBatchesFrom_layout hrounds).1, hlen]
    rfl
  intro d d' written h
  unfold writePendingBatches at h
  simp only [Effect.bind_eq_ok, Effect.lift_apply, Effect.pure_apply, Prod.mk.injEq] at h
  obtain ⟨⟨rounds, last⟩, _, hrounds, _, _, ⟨_, rfl⟩, hwritten, rfl⟩ := h
  obtain rfl := Except.ok.inj hwritten
  obtain ⟨_, hlaid, hinserts⟩ := writeBatchesFrom_layout hrounds
  have hids : (rounds.map Prod.fst).flatMap (fun entry => idsOf entry.rowIdRange) =
      List.range' range.base range.len := by
    rw [hlaid.ids, hlen]
    rfl
  refine ⟨?_, hids, ?_, hinserts, ?_⟩
  · refine hlaid.forall₂.imp fun batch entry ⟨first, hfile⟩ => ?_
    refine ⟨hfile.rowCount, ?_, ?_⟩
    · rw [hfile.range, rowIdRangeOf_eq_none, RecordBatch.numRows, List.length_eq_zero_iff]
    · rw [hfile.range, idsOf_rowIdRangeOf]
      exact hfile.stored
  · have hsorted : ((rounds.map Prod.fst).flatMap fun entry => idsOf entry.rowIdRange).Pairwise
        (· < ·) := hids ▸ List.pairwise_lt_range'
    exact (List.pairwise_flatMap.mp hsorted).2
  · rw [strictlyAscending_iff]
    exact hinserts ▸ numbered_ascending range.base (t.pending.flatMap vectorsOf)

/-- Two rows of which the first has a vector, no row, and one with a vector. -/
def layoutBatches : List RecordBatch :=
  let schema : Schema := ⟨[Field.new vectorColumn (.fixedSizeList .float32 false 1) true], []⟩
  [batchOf schema [[.vector [Binary.zero 8 23]], [.null]], batchOf schema [],
    batchOf schema [[.vector [Binary.zero 8 23]]]]

def layoutTransaction (d : Dataset) : Transaction :=
  { Transaction.begin d with pending := layoutBatches }

theorem commit_layout_three :
    ∃ d range d₁ written d', claimForPending (layoutTransaction d) (fun _ => {}) d =
        (.ok range, d₁) ∧
      writePendingBatches plainPlatform layoutBatches 0 range 1 (fun _ => {}) d₁ =
        (.ok written, d') ∧
      written.files.map DataFileEntry.rowIdRange = [some (0, 1), none, some (2, 2)] ∧
      written.files.flatMap (fun entry => idsOf entry.rowIdRange) = [0, 1, 2] ∧
      written.inserts.map VectorInsert.rowId = [0, 2] := by
  have hrun : ((createDataset plainPlatform ∅ idSchema 4 (some 0) {}).2.toOption.bind fun d =>
      (claimForPending (layoutTransaction d) (fun _ => {}) d).1.toOption.bind fun range =>
        (writePendingBatches plainPlatform layoutBatches 0 range 1 (fun _ => {})
          (claimForPending (layoutTransaction d) (fun _ => {}) d).2).1.toOption.map fun written =>
            (range, written.files.map DataFileEntry.rowIdRange,
              written.inserts.map VectorInsert.rowId)) =
      some (⟨0, 3⟩, [some (0, 1), none, some (2, 2)], [0, 2]) := by
    decide +kernel
  obtain ⟨d, _, hrun⟩ := Option.bind_eq_some_iff.mp hrun
  obtain ⟨range, hrange, hrun⟩ := Option.bind_eq_some_iff.mp hrun
  obtain ⟨written, hwritten, hout⟩ := Option.map_eq_some_iff.mp hrun
  simp only [Prod.mk.injEq] at hout
  obtain ⟨rfl, hranges, hinserts⟩ := hout
  have hclaim : claimForPending (layoutTransaction d) (fun _ => {}) d =
      (.ok ⟨0, 3⟩, (claimForPending (layoutTransaction d) (fun _ => {}) d).2) :=
    Prod.ext (toOption_eq_some.mp hrange) rfl
  have hok := toOption_eq_some.mp hwritten
  obtain ⟨_, _, hwrite⟩ := commit_layout hclaim 0 1 fun _ => {}
  obtain ⟨_, hids, _⟩ := hwrite _ _ _ (Prod.ext hok rfl)
  exact ⟨d, _, _, written, _, hclaim, Prod.ext hok rfl, hranges, hids, hinserts⟩

end StrataDB.Txn
