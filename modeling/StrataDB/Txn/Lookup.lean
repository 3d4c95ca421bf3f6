import StrataDB.Txn.GroupedResults
import StrataDB.Txn.ReadYourWrites

/-! Point lookups agree with scans. A snapshot answers a lookup from the one file whose
range covers the id, a scan reads every file; a transaction answers from what it has
staged and leaves every other id to its base. -/

namespace StrataDB.Txn

open Lib Arrow Index Storage Query

variable {P : Platform} {s : Snapshot} {cat : Catalog} {store : Store} {q : DatasetSchema}
  {request : RowLookupRequest} {projection : List String} {t t' : Transaction}

/-! ### Values that can be shown -/

/-- No projected column is a vector column with a nullable child: `result_value` refuses
those. -/
def Readable (schema : Schema) (projection : List String) : Prop :=
  ∀ f ∈ schema.fields, f.name ∈ projection → ∀ t n, f.dataType ≠ .fixedSizeList t true n

instance (schema : Schema) (projection : List String) : Decidable (Readable schema projection) :=
  decidable_of_iff (∀ f ∈ schema.fields, f.name ∈ projection →
      (match f.dataType with
        | .fixedSizeList _ true _ => false
        | _ => true) = true) <| by
    refine forall₃_congr fun f _ _ => ?_
    split <;> simp_all

theorem resultValue_of_readable {f : Field} {c : Cell} (h : f.accepts c = true) {t : LogicalType}
    (ht : logicalType f.dataType = .ok t) (hr : ∀ t n, f.dataType ≠ .fixedSizeList t true n) :
    ∃ v, resultValue f.dataType c = .ok v := by
  by_cases hs : t.isScalar = true
  · obtain ⟨v, hv, -⟩ := resultValue_of_accepts h ht hs
    exact ⟨v, hv⟩
  · obtain ⟨name, dataType, nullable, _⟩ := f
    dsimp only at ht hr ⊢
    unfold logicalType at ht
    split at ht <;> cases ht <;> try exact absurd rfl hs
    rename_i child n
    cases child with
    | true => exact absurd rfl (hr _ _)
    | false =>
      rcases Field.accepts_cases h with hnull | htype
      · cases c <;> cases hnull
        exact ⟨.null, rfl⟩
      · cases c <;> simp only [Cell.hasType, bne_self_eq_false, Bool.false_eq_true] at htype
        exact ⟨_, rfl⟩

variable {r : Row}

theorem exists_projectedRow {schema : Schema} (hn : (schema.fields.map Field.name).Nodup)
    (hr : fitsFields schema.fields r = true)
    (hp : ∀ name ∈ projection, ∃ f ∈ schema.fields, f.name = name ∧
      ∃ t, logicalType f.dataType = .ok t)
    (hread : Readable schema projection) : ∃ row, projectedRow schema projection r = .ok row := by
  have hvalues : ∀ name ∈ projection, ∃ v : ProjectedField, (do
      return ⟨name, ← columnValue schema r name⟩ : Except TxnError ProjectedField) = .ok v := by
    intro name hname
    obtain ⟨f, hf, rfl, t, ht⟩ := hp name hname
    obtain ⟨k, hk⟩ := List.mem_iff_getElem?.mp hf
    obtain ⟨v, hv⟩ := resultValue_of_readable (accepts_cell hr hk) ht (hread f hf hname)
    refine ⟨⟨f.name, v⟩, ?_⟩
    rw [columnValue, indexOf_of_getElem hn hk, orElse, ok_bind, Schema.typeAt, hk]
    change (resultValue f.dataType (Row.cell r k) >>= fun v => pure _) = _
    rw [hv]
    rfl
  obtain ⟨fields, hfields⟩ := exists_mapM_eq_ok.mpr hvalues
  exact ⟨⟨fields⟩, by rw [projectedRow, hfields]; rfl⟩

theorem exists_typed_field (hq : s.querySchema = .ok q)
    (hval : q.validateRowLookup request = .ok projection) :
    ∀ name ∈ projection, ∃ f ∈ s.schema.fields, f.name = name ∧
      ∃ t, logicalType f.dataType = .ok t := by
  intro name hname
  obtain ⟨col, hcol, rfl⟩ := DatasetSchema.validateProjection_mem hval name hname
  obtain ⟨f, hf, hfname, htype⟩ := exists_field_of_column hq hcol
  exact ⟨f, hf, hfname, _, htype⟩

/-- The same for a stored row, which has the hidden columns too. -/
theorem exists_projectedRow_full (hw : WellNamed s.schema)
    (hr : fitsFields (fullFields s.schema) r = true) (hq : s.querySchema = .ok q)
    (hval : q.validateRowLookup request = .ok projection) (hread : Readable s.schema projection) :
    ∃ row, projectedRow (fullSchema s.schema) projection r = .ok row := by
  refine exists_projectedRow hw.full_nodup hr (fun name hname => ?_) fun f hf hname t n => ?_
  · obtain ⟨f, hf, hrest⟩ := exists_typed_field hq hval name hname
    exact ⟨f, List.mem_append_left _ hf, hrest⟩
  · rcases List.mem_append.mp hf with hf | hf
    · exact hread f hf hname t n
    · rcases List.mem_pair.mp hf with rfl | rfl <;> nofun

/-! ### Lookups in a snapshot -/

section

variable (hv : s.Valid P cat) (hs : cat.StoredIn store) (hq : s.querySchema = .ok q)
  (hval : q.validateRowLookup request = .ok projection)

include hv hs hq hval

theorem Snapshot.Valid.lookupRow_live {r : Row} (hr : r ∈ cat.liveRows s.tombstones)
    (hid : storedRowId r = request.rowId) :
    s.lookupRow P store request = (do
      let row ← engine (projectedRow (fullSchema s.schema) projection r)
      return ⟨request.rowId, projection, .live row⟩) := by
  have hfind := find?_key_eq hv.rowIds_nodup (List.mem_of_mem_filter hr)
  have hlive : s.isVisible (storedRowId r) = true := by
    simpa [Snapshot.isVisible] using (List.mem_filter.mp hr).2
  rw [hid] at hfind
  rw [hv.lookupRow hs, Snapshot.answerLookup, hq, ok_bind, hval, ok_bind, hfind]
  dsimp only
  rw [Snapshot.rowOutcome, hlive, if_pos rfl]
  cases projectedRow (fullSchema s.schema) projection r <;> rfl

theorem Snapshot.Valid.lookupRow_tombstoned (howns : s.ownsRow request.rowId = true)
    (hdead : request.rowId ∈ s.tombstones) :
    s.lookupRow P store request = .ok ⟨request.rowId, projection, .tombstoned⟩ := by
  obtain ⟨r, hr, hid⟩ := List.mem_map.mp (hv.ownsRow_iff.mp howns)
  have hfind := find?_key_eq hv.rowIds_nodup hr
  have hlive : s.isVisible (storedRowId r) = false := by
    simpa [Snapshot.isVisible, hid] using hdead
  rw [hid] at hfind
  rw [hv.lookupRow hs, Snapshot.answerLookup, hq, ok_bind, hval, ok_bind, hfind]
  dsimp only
  rw [Snapshot.rowOutcome, hlive]
  rfl

theorem Snapshot.Valid.lookupRow_notFound (howns : s.ownsRow request.rowId = false) :
    s.lookupRow P store request = .ok ⟨request.rowId, projection, .notFound⟩ := by
  have hnone : cat.rows.find? (storedRowId · == request.rowId) = none := by
    rw [List.find?_eq_none]
    intro r hr hid
    have howned := hv.ownsRow_iff.mpr (List.mem_map.mpr ⟨r, hr, by simpa using hid⟩)
    rw [howns] at howned
    cases howned
  rw [hv.lookupRow hs, Snapshot.answerLookup, hq, ok_bind, hval, ok_bind, hnone]
  rfl

end

/-- An id belongs to a live row, to a row that is tombstoned, or to none. -/
theorem Snapshot.Valid.row_cases (hv : s.Valid P cat) (rowId : ℕ) :
    (∃ r ∈ cat.liveRows s.tombstones, storedRowId r = rowId) ∨
      (s.ownsRow rowId = true ∧ rowId ∈ s.tombstones) ∨ s.ownsRow rowId = false := by
  by_cases howns : s.ownsRow rowId = true
  · by_cases hdead : rowId ∈ s.tombstones
    · exact .inr (.inl ⟨howns, hdead⟩)
    · obtain ⟨r, hr, rfl⟩ := List.mem_map.mp (hv.ownsRow_iff.mp howns)
      exact .inl ⟨r, List.mem_filter.mpr ⟨hr, by simpa using hdead⟩, rfl⟩
  · exact .inr (.inr (by simpa using howns))

theorem Snapshot.Valid.owns_live (hv : s.Valid P cat) (hr : r ∈ cat.liveRows s.tombstones) :
    s.ownsRow (storedRowId r) = true ∧ storedRowId r ∉ s.tombstones :=
  ⟨hv.ownsRow_iff.mpr (List.mem_map_of_mem (List.mem_of_mem_filter hr)),
    by simpa using (List.mem_filter.mp hr).2⟩

/-- What a lookup says about an id, against the rows that a scan shows. -/
structure LookupAgrees (P : Platform) (s : Snapshot) (store : Store) (rows : List Row)
    (request : RowLookupRequest) (projection : List String) : Prop where
  live : ∀ row, s.lookupRow P store request = .ok ⟨request.rowId, projection, .live row⟩ ↔
    ∃ r ∈ rows, storedRowId r = request.rowId ∧
      projectedRow (fullSchema s.schema) projection r = .ok row
  tombstoned : s.lookupRow P store request = .ok ⟨request.rowId, projection, .tombstoned⟩ ↔
    s.ownsRow request.rowId = true ∧ request.rowId ∈ s.tombstones
  notFound : s.lookupRow P store request = .ok ⟨request.rowId, projection, .notFound⟩ ↔
    (∀ r ∈ rows, storedRowId r ≠ request.rowId) ∧
      ¬ (s.ownsRow request.rowId = true ∧ request.rowId ∈ s.tombstones)
  /-- The values of a scanned row can be shown. -/
  shown : Readable s.schema projection → ∀ r ∈ rows, ∃ row,
    projectedRow (fullSchema s.schema) projection r = .ok row

theorem Snapshot.Valid.lookupAgrees (hv : s.Valid P cat) (hs : cat.StoredIn store)
    (hq : s.querySchema = .ok q) (hval : q.validateRowLookup request = .ok projection) :
    LookupAgrees P s store (cat.liveRows s.tombstones) request projection := by
  have hshown : Readable s.schema projection → ∀ r ∈ cat.liveRows s.tombstones, ∃ row,
      projectedRow (fullSchema s.schema) projection r = .ok row := fun hread r hr =>
    exists_projectedRow_full hv.wellNamed (Catalog.fits hv (List.mem_of_mem_filter hr)) hq hval
      hread
  rcases hv.row_cases request.rowId with ⟨r, hr, hid⟩ | ⟨howns, hdead⟩ | howns
  · have hlookup := hv.lookupRow_live hs hq hval hr hid
    have hunique : ∀ r' ∈ cat.liveRows s.tombstones, storedRowId r' = request.rowId → r' = r :=
      fun r' hr' hid' => List.inj_on_of_nodup_map hv.rowIds_nodup (List.mem_of_mem_filter hr')
        (List.mem_of_mem_filter hr) (hid'.trans hid.symm)
    have hnot := (hv.owns_live hr).2
    rw [hid] at hnot
    refine ⟨fun row => ?_, ?_, ?_, hshown⟩
    · rw [hlookup]
      constructor
      · simp only [bind_eq_ok, engine_eq_ok, pure_eq_ok]
        rintro ⟨row', hrow, heq⟩
        cases heq
        exact ⟨r, hr, hid, hrow⟩
      · rintro ⟨r', hr', hid', hrow⟩
        rw [hunique r' hr' hid'] at hrow
        rw [hrow]
        rfl
    · rw [hlookup]
      refine iff_of_false ?_ fun h => hnot h.2
      simp only [bind_eq_ok, engine_eq_ok, pure_eq_ok]
      rintro ⟨row', -, heq⟩
      cases heq
    · rw [hlookup]
      refine iff_of_false ?_ fun h => h.1 r hr hid
      simp only [bind_eq_ok, engine_eq_ok, pure_eq_ok]
      rintro ⟨row', -, heq⟩
      cases heq
  · have hlookup := hv.lookupRow_tombstoned hs hq hval howns hdead
    have hnone : ∀ r ∈ cat.liveRows s.tombstones, storedRowId r ≠ request.rowId :=
      fun r hr hid => (hv.owns_live hr).2 (hid ▸ hdead)
    refine ⟨fun row => ?_, ?_, ?_, hshown⟩ <;> rw [hlookup]
    · refine iff_of_false (fun h => by cases h) ?_
      rintro ⟨r, hr, hid, -⟩
      exact hnone r hr hid
    · exact iff_of_true rfl ⟨howns, hdead⟩
    · exact iff_of_false (fun h => by cases h) fun h => h.2 ⟨howns, hdead⟩
  · have hlookup := hv.lookupRow_notFound hs hq hval howns
    have hnone : ∀ r ∈ cat.liveRows s.tombstones, storedRowId r ≠ request.rowId := by
      intro r hr hid
      have howned := (hv.owns_live hr).1
      rw [hid, howns] at howned
      cases howned
    refine ⟨fun row => ?_, ?_, ?_, hshown⟩ <;> rw [hlookup]
    · refine iff_of_false (fun h => by cases h) ?_
      rintro ⟨r, hr, hid, -⟩
      exact hnone r hr hid
    · exact iff_of_false (fun h => by cases h) fun h => by simp [howns] at h
    · exact iff_of_true rfl ⟨hnone, by simp [howns]⟩

/-! ### Lookups in a transaction -/

namespace Transaction

/-- The row that a call removes from the base. -/
def Call.target : Call → Option ℕ
  | .insert _ => none
  | .delete rowId => some rowId
  | .update rowId _ => some rowId

theorem targets_append (calls : List Call) (call : Call) :
    (calls ++ [call]).filterMap Call.target =
      calls.filterMap Call.target ++ call.target.toList := by
  rw [List.filterMap_append]
  cases call <;> rfl

variable {rowId : ℕ}

theorem nodup_targets {calls : List Call} (h : (calls.filterMap Call.target).Nodup)
    (hnew : rowId ∉ calls.filterMap Call.target) :
    (calls.filterMap Call.target ++ [rowId]).Nodup := by
  refine List.nodup_append.mpr ⟨h, List.nodup_singleton _, fun a ha b hb hab => hnew ?_⟩
  rwa [← List.mem_singleton.mp hb, ← hab]

theorem eq_of_target {calls : List Call} (h : (calls.filterMap Call.target).Nodup) {c c' : Call}
    (hc : c ∈ calls) (hc' : c' ∈ calls) (ht : c.target = some rowId)
    (ht' : c'.target = some rowId) : c = c' := by
  have hpair := List.pairwise_filterMap.mp h
  have : Std.Symm fun a b : Call => ∀ x, a.target = some x → ∀ y, b.target = some y → x ≠ y :=
    ⟨fun _ _ hab x hx y hy => (hab y hy x hx).symm⟩
  by_contra hne
  exact hpair.forall hc hc' hne _ ht _ ht' rfl

/-- What the fields of a transaction say about the calls that staged it. -/
structure Reflects (t : Transaction) (calls : List Call) : Prop where
  tombstones : t.pendingTombstones = calls.filterMap Call.target
  replacements : ∀ rowId batch, t.pendingReplacements.lookup rowId = some batch ↔
    .update rowId batch ∈ calls
  nodup : (calls.filterMap Call.target).Nodup
  single : ∀ rowId batch, .update rowId batch ∈ calls →
    batch.schema = t.schema ∧ batch.rows.length = 1

theorem reflects_onBase (base : Snapshot) : (onBase base).Reflects [] :=
  ⟨rfl, by simp [onBase], by simp, by simp⟩

theorem Reflects.stage {calls : List Call} (h : t.Reflects calls) {call : Call}
    (hc : t.stage call = .ok t') : t'.Reflects (calls ++ [call]) ∧ t'.base = t.base := by
  cases call with
  | insert batch =>
    simp only [Transaction.stage, Transaction.insert, validateBatch, bind_eq_ok, ensure_eq_ok,
      pure_eq_ok] at hc
    obtain ⟨_, -, rfl⟩ := hc
    refine ⟨⟨?_, fun rowId b => ?_, ?_, fun rowId b hb => ?_⟩, rfl⟩
    · rw [targets_append, h.tombstones, Call.target, Option.toList_none, List.append_nil]
    · simpa using h.replacements rowId b
    · rw [targets_append, Call.target, Option.toList_none, List.append_nil]
      exact h.nodup
    · exact h.single rowId b (by simpa using hb)
  | delete rowId =>
    simp only [Transaction.stage, Transaction.delete, validateTarget, bind_eq_ok, ensure_eq_ok,
      pure_eq_ok] at hc
    obtain ⟨_, ⟨_, hnew, -⟩, rfl⟩ := hc
    rw [h.tombstones] at hnew
    refine ⟨⟨?_, fun i b => ?_, ?_, fun i b hb => ?_⟩, rfl⟩
    · rw [targets_append, h.tombstones]
      rfl
    · simpa using h.replacements i b
    · rw [targets_append]
      exact nodup_targets h.nodup hnew
    · exact h.single i b (by simpa using hb)
  | update rowId batch =>
    simp only [Transaction.stage, Transaction.update, validateBatch, validateTarget, bind_eq_ok,
      ensure_eq_ok, pure_eq_ok] at hc
    obtain ⟨_, hschema, _, hcount, _, ⟨_, hnew, -⟩, rfl⟩ := hc
    rw [h.tombstones] at hnew
    refine ⟨⟨?_, fun i b => ?_, ?_, fun i b hb => ?_⟩, rfl⟩
    · rw [targets_append, h.tombstones]
      rfl
    · rw [List.lookup_cons, lookup_filter_ne]
      by_cases hi : i = rowId
      · -- the id was not a target before
        subst hi
        have hold : ∀ b, Call.update i b ∉ calls := fun b hb =>
          hnew (List.mem_filterMap.mpr ⟨_, hb, rfl⟩)
        simp [hold, eq_comm]
      · rw [beq_false_of_ne hi, if_neg hi, h.replacements i b]
        simp [hi]
    · rw [targets_append]
      exact nodup_targets h.nodup hnew
    · rcases List.mem_append.mp hb with hb | hb
      · exact h.single i b hb
      · cases List.mem_singleton.mp hb
        exact ⟨hschema, hcount⟩

theorem reflects_foldlM {calls done : List Call} (h : t.Reflects done)
    (hc : calls.foldlM stage t = .ok t') : t'.Reflects (done ++ calls) := by
  induction calls generalizing t done with
  | nil => cases hc; simpa using h
  | cons call calls ih =>
    rw [List.foldlM_cons, bind_eq_ok] at hc
    obtain ⟨u, hu, hc⟩ := hc
    simpa using ih (h.stage hu).1 hc

theorem StagedBy.reflects {calls : List Call} (h : t.StagedBy calls) : t.Reflects calls := by
  simpa using reflects_foldlM (reflects_onBase t.base) h

section

variable {calls : List Call} (h : t.Reflects calls)

include h

theorem Reflects.lookupRow_updated (hq : t.base.querySchema = .ok q)
    (hval : q.validateRowLookup request = .ok projection) {batch : RecordBatch}
    (hu : .update request.rowId batch ∈ calls) :
    t.lookupRow P store request = (do
      let row ← engine (projectedRow batch.schema projection (batch.rows.headD []))
      return ⟨request.rowId, projection, .live row⟩) := by
  have hmem : request.rowId ∈ t.pendingTombstones := by
    rw [h.tombstones]
    exact List.mem_filterMap.mpr ⟨_, hu, rfl⟩
  unfold Transaction.lookupRow
  rw [hq, ok_bind, hval, ok_bind, if_neg (not_not.mpr hmem),
    (h.replacements request.rowId batch).mpr hu]
  unfold replacementOutcome
  dsimp only
  cases projectedRow batch.schema projection (batch.rows.headD []) <;> rfl

theorem Reflects.lookupRow_deleted (hq : t.base.querySchema = .ok q)
    (hval : q.validateRowLookup request = .ok projection)
    (hd : .delete request.rowId ∈ calls) :
    t.lookupRow P store request = .ok ⟨request.rowId, projection, .tombstoned⟩ := by
  have hmem : request.rowId ∈ t.pendingTombstones := by
    rw [h.tombstones]
    exact List.mem_filterMap.mpr ⟨_, hd, rfl⟩
  have hnone : t.pendingReplacements.lookup request.rowId = none := by
    rw [Option.eq_none_iff_forall_ne_some]
    intro batch hbatch
    have hu := (h.replacements request.rowId batch).mp hbatch
    cases eq_of_target h.nodup hd hu rfl rfl
  unfold Transaction.lookupRow
  rw [hq, ok_bind, hval, ok_bind, if_neg (not_not.mpr hmem), hnone]
  rfl

theorem Reflects.lookupRow_other (hne : request.rowId ∉ calls.filterMap Call.target) :
    t.lookupRow P store request = t.base.lookupRow P store request := by
  rw [← h.tombstones] at hne
  unfold Transaction.lookupRow
  cases hq : t.base.querySchema with
  | error e => rw [Snapshot.lookupRow, hq]; rfl
  | ok q =>
    cases hval : q.validateRowLookup request with
    | error e => rw [Snapshot.lookupRow, hq, ok_bind, ok_bind, hval]; rfl
    | ok projection => rw [ok_bind, hval, ok_bind, if_pos hne]

end

/-- What lookups and scans inside a transaction say, against the calls that staged it and
the rows that a scan of its base shows. -/
structure LookupsAgree (P : Platform) (t : Transaction) (store : Store) (rows : List Row)
    (calls : List Call) : Prop where
  scanQuery : ∀ request, t.scanQuery P store request = t.base.answerScan
    (rows.filter (fun r => storedRowId r ∉ calls.filterMap Call.target) ++ stagedRows t.rows 0 0)
    request
  updated : ∀ {q request projection batch}, t.base.querySchema = .ok q →
    q.validateRowLookup request = .ok projection → .update request.rowId batch ∈ calls →
    ∃ r, batch.rows = [r] ∧
      t.lookupRow P store request = (do
        let row ← engine (projectedRow batch.schema projection r)
        return ⟨request.rowId, projection, .live row⟩) ∧
      (Readable t.base.schema projection →
        ∃ row, projectedRow batch.schema projection r = .ok row)
  deleted : ∀ {q request projection}, t.base.querySchema = .ok q →
    q.validateRowLookup request = .ok projection → .delete request.rowId ∈ calls →
    t.lookupRow P store request = .ok ⟨request.rowId, projection, .tombstoned⟩
  other : ∀ request : RowLookupRequest, request.rowId ∉ calls.filterMap Call.target →
    t.lookupRow P store request = t.base.lookupRow P store request

theorem Staged.lookupsAgree (hst : t.Staged) (hv : t.base.Valid P cat) (hs : cat.StoredIn store)
    {calls : List Call} (hcalls : t.StagedBy calls) :
    t.LookupsAgree P store (cat.liveRows t.base.tombstones) calls := by
  have h := hcalls.reflects
  refine ⟨fun request => ?_, fun {q request projection batch} hq hval hu => ?_,
    fun hq hval hd => h.lookupRow_deleted hq hval hd, fun request hne => h.lookupRow_other hne⟩
  · rw [scanQuery_eq hst hv hs 0 0, Catalog.keptRows, ← hst.tombstones_eq, h.tombstones]
  · obtain ⟨hschema, hcount⟩ := h.single _ _ hu
    obtain ⟨r, hr⟩ := List.length_eq_one_iff.mp hcount
    have hlookup : t.lookupRow P store request = _ := h.lookupRow_updated hq hval hu
    rw [hr, List.headD_cons] at hlookup
    refine ⟨r, hr, hlookup, fun hread => ?_⟩
    have hbase : batch.schema = t.base.schema := hschema.trans hst.schema_eq
    refine exists_projectedRow ?_ (batch.fits r (by simp [hr])) ?_ ?_
    · rw [hbase]
      exact hv.wellNamed.nodup
    · rw [hbase]
      exact exists_typed_field hq hval
    · rwa [hbase]

end Transaction

/-- In every state that a run reaches, lookups say what scans show, for every snapshot in
use and inside every open transaction. -/
theorem lookups_agree_with_scans {sys : System} (hreach : (system P).Reachable sys) :
    (∀ b ∈ sys.dataset.current :: sys.held, ∃ whole,
      b.scan P sys.dataset.store (fullSchema b.schema) = .ok whole ∧
      ∀ q request projection, b.querySchema = .ok q →
        q.validateRowLookup request = .ok projection →
        LookupAgrees P b sys.dataset.store whole.rows request projection) ∧
    ∀ (id : ℕ) (t : Transaction) (stage : Stage), sys.txns[id]? = some ⟨t, stage⟩ →
      stage.alive = true →
      (∃ calls, t.StagedBy calls) ∧ ∃ whole,
        t.base.scan P sys.dataset.store (fullSchema t.base.schema) = .ok whole ∧
        ∀ calls, t.StagedBy calls → t.LookupsAgree P sys.dataset.store whole.rows calls := by
  have hinv := System.inv_of_reachable hreach
  constructor
  · intro b hb
    obtain ⟨cat, hv, hstored⟩ := hinv.snapshot_valid hb
    obtain ⟨whole, hwhole, hrows⟩ := hv.scan_full hstored
    refine ⟨whole, hwhole, fun q request projection hq hval => ?_⟩
    rw [hrows]
    exact hv.lookupAgrees hstored hq hval
  · intro id t stage ht halive
    have hst := (hinv.txns _ (List.mem_of_getElem? ht)).staged
    have hnone : (system P).run sys [] = some sys := rfl
    obtain ⟨cat, hv, hstored, -⟩ := hinv.base_valid hnone hinv ht halive ht halive
    obtain ⟨whole, hwhole, hrows⟩ := hv.scan_full hstored
    refine ⟨hst.calls, whole, hwhole, fun calls hcalls => ?_⟩
    rw [hrows]
    exact hst.lookupsAgree hv hstored hcalls

theorem lookups_agree_with_scans_restaged :
    ∃ (s : System) (t : Transaction) (stage : Stage), plainRun idSchema restageLabels = some s ∧
      s.txns[1]? = some ⟨t, stage⟩ ∧ t.pendingTombstones = [0, 1] ∧
      (t.lookupRow plainPlatform s.dataset.store ⟨0, .all⟩).toOption =
        some ⟨0, ["id"], .live ⟨[⟨"id", .int64 11⟩]⟩⟩ ∧
      ∃ calls rows, t.StagedBy calls ∧
        t.LookupsAgree plainPlatform s.dataset.store rows calls := by
  have hrun : ((plainRun idSchema restageLabels).bind fun s => s.txns[1]?.map fun t =>
      (t.txn.pendingTombstones, t.stage.alive,
        (t.txn.lookupRow plainPlatform s.dataset.store ⟨0, .all⟩).toOption)) =
      some ([0, 1], true, some ⟨0, ["id"], .live ⟨[⟨"id", .int64 11⟩]⟩⟩) := by
    decide +kernel
  obtain ⟨s, hs, hmap⟩ := Option.bind_eq_some_iff.mp hrun
  obtain ⟨⟨t, stage⟩, ht, hout⟩ := Option.map_eq_some_iff.mp hmap
  simp only [Prod.mk.injEq] at hout
  obtain ⟨htombstones, halive, hfound⟩ := hout
  obtain ⟨⟨calls, hcalls⟩, whole, -, hagree⟩ :=
    (lookups_agree_with_scans (reachable_runOn hs)).2 1 t stage ht halive
  exact ⟨s, t, stage, hs, ht, htombstones, hfound, calls, whole.rows, hcalls, hagree calls hcalls⟩

/-- A vector column whose child is nullable. -/
def looseSchema : Schema := ⟨[Field.new vectorColumn (.fixedSizeList .float32 true 1) true], []⟩

/-- The columns pass validation and a scan shows the row, but `result_value` refuses the
column, and the lookup of the live row fails. -/
theorem lookup_refuses_nullable_child :
    ∃ s q projection whole e,
      plainRun looseSchema (insertLabels (batchOf looseSchema [[.vector [Binary.zero 8 23]]])) =
        some s ∧
      s.dataset.current.querySchema = .ok q ∧
      q.validateRowLookup ⟨0, .all⟩ = .ok projection ∧
      s.dataset.current.scan plainPlatform s.dataset.store
        (fullSchema s.dataset.current.schema) = .ok whole ∧
      whole.rows.map storedRowId = [0] ∧
      s.dataset.current.lookupRow plainPlatform s.dataset.store ⟨0, .all⟩ = .error e := by
  have hrun : (plainRun looseSchema
      (insertLabels (batchOf looseSchema [[.vector [Binary.zero 8 23]]]))).map (fun s =>
        ((s.dataset.current.querySchema.toOption.bind fun q =>
            (q.validateRowLookup ⟨0, .all⟩).toOption),
          (s.dataset.current.scan plainPlatform s.dataset.store
            (fullSchema s.dataset.current.schema)).toOption.map fun b => b.rows.map storedRowId,
          (s.dataset.current.lookupRow plainPlatform s.dataset.store ⟨0, .all⟩).isOk)) =
      some (some [vectorColumn], some [0], false) := by
    decide +kernel
  obtain ⟨s, hs, hout⟩ := Option.map_eq_some_iff.mp hrun
  obtain ⟨hval, hout⟩ := Prod.mk.inj hout
  obtain ⟨hscan, hlookup⟩ := Prod.mk.inj hout
  obtain ⟨q, hq, hval⟩ := Option.bind_eq_some_iff.mp hval
  obtain ⟨whole, hwhole, hids⟩ := Option.map_eq_some_iff.mp hscan
  obtain ⟨e, he⟩ := exists_error_of_isOk_eq_false hlookup
  exact ⟨s, q, _, whole, e, hs, toOption_eq_some.mp hq, toOption_eq_some.mp hval,
    toOption_eq_some.mp hwhole, hids, he⟩

end StrataDB.Txn
