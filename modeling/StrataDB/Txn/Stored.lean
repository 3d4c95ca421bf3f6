import StrataDB.Txn.Catalog

/-! Stored batches. A batch stores rows of a logical schema when its fields are
the logical ones, each as it is or dictionary encoded, followed by the hidden
columns. Reading such a batch back by name gives the cells of its rows. -/

namespace StrataDB.Txn

open Lib Arrow Index Storage

/-! ### Schemas a dataset accepts -/

/-- Field names are distinct and none is hidden. -/
structure WellNamed (schema : Schema) : Prop where
  nodup : (schema.fields.map Field.name).Nodup
  not_hidden : ∀ f ∈ schema.fields, f.name ∉ hiddenColumns

variable {u : Unit} {schema : Schema} {owned : Field} {c : Cell} {stored : List Field} {k : ℕ}
  {K : Kernels}

theorem validateSchema_go_eq_ok {seen : List String} {fs : List Field} :
    validateSchema.go seen fs = .ok u ↔
      (fs.map Field.name).Nodup ∧ ∀ f ∈ fs, f.name ∉ hiddenColumns ∧ f.name ∉ seen := by
  induction fs generalizing seen with
  | nil => simp [validateSchema.go]
  | cons f fs ih =>
    simp only [validateSchema.go, bind_eq_ok, ensure_eq_ok, ih, List.map_cons, List.nodup_cons,
      List.mem_map, List.mem_cons]
    constructor
    · rintro ⟨_, hf, _, hs, hn, hall⟩
      refine ⟨⟨?_, hn⟩, ?_⟩
      · rintro ⟨g, hg, hgf⟩
        exact (hall g hg).2 (.inl hgf)
      · rintro g (rfl | hg)
        · exact ⟨hf, hs⟩
        · exact ⟨(hall g hg).1, fun h => (hall g hg).2 (.inr h)⟩
    · rintro ⟨⟨hnew, hn⟩, hall⟩
      refine ⟨(), (hall f (.inl rfl)).1, (), (hall f (.inl rfl)).2, hn, fun g hg => ?_⟩
      refine ⟨(hall g (.inr hg)).1, ?_⟩
      rintro (hgf | hgs)
      · exact hnew ⟨g, hg, hgf⟩
      · exact (hall g (.inr hg)).2 hgs

theorem validateSchema_eq_ok : validateSchema schema = .ok u ↔ WellNamed schema := by
  unfold validateSchema
  rw [validateSchema_go_eq_ok]
  constructor
  · rintro ⟨h₁, h₂⟩
    exact ⟨h₁, fun f hf => (h₂ f hf).1⟩
  · rintro ⟨h₁, h₂⟩
    exact ⟨h₁, fun f hf => ⟨h₂ f hf, List.not_mem_nil⟩⟩

/-- All columns a stored row has, under their logical types. -/
def fullFields (schema : Schema) : List Field := schema.fields ++ [rowIdField, timestampField]

theorem WellNamed.full_nodup (h : WellNamed schema) :
    ((fullFields schema).map Field.name).Nodup := by
  rw [fullFields, List.map_append, List.nodup_append]
  refine ⟨h.nodup, by decide, ?_⟩
  intro a ha b hb hab
  obtain ⟨f, hf, rfl⟩ := List.mem_map.mp ha
  exact h.not_hidden f hf (by rw [hab]; exact hb)

/-! ### Stored fields -/

/-- The stored fields of rows of a logical schema. -/
def StoresFields (schema : Schema) (stored : List Field) : Prop :=
  List.Forall₂ (fun s owned => storedFieldMatches s owned = true ∧
    (owned.name ∈ hiddenColumns → s = owned)) stored (fullFields schema)

theorem storedFieldMatches_iff {stored : Field} :
    storedFieldMatches stored owned = true ↔
      stored.name = owned.name ∧ stored.nullable = owned.nullable ∧
        stored.metadata = owned.metadata ∧
        storedTypeMatchesOwnedSchema stored.dataType owned.dataType = true := by
  simp [storedFieldMatches, and_assoc]

theorem storedTypeMatches_iff {stored owned : DataType} :
    storedTypeMatchesOwnedSchema stored owned = true ↔
      stored = owned ∨ ∃ key, stored = .dictionary key owned := by
  unfold storedTypeMatchesOwnedSchema
  cases stored <;> simp

theorem Cell.hasType_dictionary (c : Cell) (key value : DataType) :
    c.hasType (.dictionary key value) = c.hasType value := by
  cases c <;> simp [Cell.hasType]

theorem hasType_of_storedTypeMatches {stored owned : DataType}
    (h : storedTypeMatchesOwnedSchema stored owned = true) :
    c.hasType stored = c.hasType owned := by
  rcases storedTypeMatches_iff.mp h with rfl | ⟨key, rfl⟩
  · rfl
  · exact Cell.hasType_dictionary c key owned

/-- A stored field accepts exactly the cells of the field it stores. -/
theorem accepts_of_storedFieldMatches {stored : Field}
    (h : storedFieldMatches stored owned = true) : stored.accepts c = owned.accepts c := by
  obtain ⟨_, hnull, _, htype⟩ := storedFieldMatches_iff.mp h
  unfold Field.accepts
  rw [hnull, hasType_of_storedTypeMatches htype]

theorem StoresFields.names (h : StoresFields schema stored) :
    stored.map Field.name = (fullFields schema).map Field.name := by
  unfold StoresFields at h
  generalize fullFields schema = full at h ⊢
  induction h with
  | nil => rfl
  | cons hd _ ih => rw [List.map_cons, List.map_cons, ih, (storedFieldMatches_iff.mp hd.1).1]

theorem StoresFields.length (h : StoresFields schema stored) :
    stored.length = schema.fields.length + 2 := by
  rw [List.Forall₂.length_eq h, fullFields, List.length_append]
  rfl

theorem StoresFields.getElem (h : StoresFields schema stored)
    (hk : (fullFields schema)[k]? = some owned) :
    ∃ s, stored[k]? = some s ∧ storedFieldMatches s owned = true ∧
      (owned.name ∈ hiddenColumns → s = owned) := by
  obtain ⟨hlt, rfl⟩ := List.getElem?_eq_some_iff.mp hk
  have hlt' : k < stored.length := by rwa [List.Forall₂.length_eq h]
  exact ⟨stored[k], List.getElem?_eq_getElem hlt', List.Forall₂.get h hlt' hlt⟩

/-- Rows that fit the stored fields are rows of the full schema. -/
theorem StoresFields.fits_iff (h : StoresFields schema stored) {r : Row} :
    fitsFields stored r = true ↔ fitsFields (fullFields schema) r = true := by
  unfold StoresFields at h
  generalize fullFields schema = full at h ⊢
  induction h generalizing r with
  | nil => rfl
  | cons hd _ ih =>
    cases r with
    | nil => simp [fitsFields]
    | cons c cs => simp only [fitsFields, accepts_of_storedFieldMatches hd.1, Bool.and_eq_true, ih]

/-! ### Reading columns by name -/

/-- With distinct names, a field is found at its own position. -/
theorem indexOf_of_getElem (hn : (schema.fields.map Field.name).Nodup) {f : Field}
    (hk : schema.fields[k]? = some f) : schema.indexOf f.name = some k := by
  obtain ⟨hlt, rfl⟩ := List.getElem?_eq_some_iff.mp hk
  unfold Schema.indexOf
  rw [List.findIdx?_eq_some_iff_getElem]
  refine ⟨hlt, by simp, fun j hj heq => ?_⟩
  have hj' : j < schema.fields.length := by omega
  have hname : (schema.fields.map Field.name)[j]? = (schema.fields.map Field.name)[k]? := by
    simpa [hj', hlt] using heq
  have := (List.getElem?_inj (by simpa using hj') hn).mp hname
  omega

/-- A stored batch finds each column of the full schema at its position. -/
theorem StoresFields.indexOf {stored : Schema} (hw : WellNamed schema)
    (h : StoresFields schema stored.fields) (hk : (fullFields schema)[k]? = some owned) :
    stored.indexOf owned.name = some k := by
  obtain ⟨s, hs, hm, _⟩ := h.getElem hk
  rw [← (storedFieldMatches_iff.mp hm).1]
  exact indexOf_of_getElem (by rw [h.names]; exact hw.full_nodup) hs

/-- A column is read at its position, unchanged, if its stored field matches. -/
theorem castColumn_of_matches {stored : Schema} {st : Field}
    (hidx : stored.indexOf owned.name = some k) (hst : stored.fields[k]? = some st)
    (hm : storedFieldMatches st owned = true) : castColumn K stored owned = .ok (k, id) := by
  have htype : stored.typeAt k = st.dataType := by rw [Schema.typeAt, hst]
  unfold Txn.castColumn
  rw [hidx]
  simp only [orElse, ok_bind, htype]
  rcases storedTypeMatches_iff.mp (storedFieldMatches_iff.mp hm).2.2.2 with heq | ⟨key, heq⟩
  · rw [if_pos heq]
    rfl
  · split
    · rfl
    · rw [heq, K.unpack_eq]
      rfl

/-- Every column of the full schema is read at its position, unchanged. -/
theorem StoresFields.castColumn {stored : Schema} (hw : WellNamed schema)
    (h : StoresFields schema stored.fields) (hk : (fullFields schema)[k]? = some owned) :
    castColumn K stored owned = .ok (k, id) := by
  obtain ⟨s, hs, hm, _⟩ := h.getElem hk
  exact castColumn_of_matches (h.indexOf hw hk) hs hm

theorem map_cell_range (r : Row) {n : ℕ} (h : n ≤ r.length) :
    (List.range n).map (Row.cell r) = r.take n := by
  apply List.ext_getElem
  · simpa using h
  · intro i h₁ h₂
    have hi : i < r.length := by
      simp only [List.length_map, List.length_range] at h₁
      omega
    simp [Row.cell, List.getD_eq_getElem?_getD, hi]

/-- Projecting a stored batch onto columns of the full schema picks the cells at
their positions. -/
theorem castBatch_of_stored {requested : Schema} {batch : RecordBatch} (hw : WellNamed schema)
    (h : StoresFields schema batch.schema.fields) {ks : List ℕ}
    (hks : List.Forall₂ (fun f k => (fullFields schema)[k]? = some f) requested.fields ks) :
    ∃ b, castBatchToSchema K batch requested = .ok b ∧ b.schema = requested ∧
      b.rows = batch.rows.map fun r => ks.map (Row.cell r) := by
  have hcols : requested.fields.mapM (castColumn K batch.schema) =
      .ok (ks.map fun k => (k, id)) := by
    rw [mapM_eq_ok, List.forall₂_map_right_iff]
    exact hks.imp fun f k hk => h.castColumn hw hk
  have hfits : ∀ r ∈ batch.rows.map (fun r => ks.map (Row.cell r)),
      fitsFields requested.fields r = true := by
    intro _ hrow
    obtain ⟨r, hr, rfl⟩ := List.mem_map.mp hrow
    have hfull := fitsFields_iff.mp (h.fits_iff.mp (batch.fits r hr))
    rw [fitsFields_iff, List.forall₂_map_right_iff]
    refine hks.imp fun f k hk => ?_
    obtain ⟨hlt, rfl⟩ := List.getElem?_eq_some_iff.mp hk
    have hlt' : k < r.length := by rwa [← hfull.length_eq]
    have := List.Forall₂.get hfull hlt hlt'
    simpa [Row.cell, List.getD_eq_getElem?_getD, hlt'] using this
  refine ⟨⟨requested, _, hfits⟩, ?_, rfl, rfl⟩
  unfold castBatchToSchema
  rw [hcols]
  simp only [ok_bind, List.map_map, Function.comp_def, id_eq]
  rw [RecordBatch.tryNewWithOptions_of_fits hfits]
  rfl

end StrataDB.Txn
