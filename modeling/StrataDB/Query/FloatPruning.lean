import StrataDB.Query.Pruning

/-! Pruning of float columns. Rows are selected in the total order and files are
skipped by numeric bounds, so the two can disagree: on NaN literals, on NaN values,
and on the two zeros. A leaf lets a file through when no bounds are recorded, or when
the bounded values reach the literal numerically and the lower bound, where the leaf
reads it, is a number; a tree does so as its leaves do. -/

namespace StrataDB.Query

open Lib Arrow Storage

variable {op : CmpOp} {slots : ℕ → F64} {cells : List Cell} {values : List F64} {w : F64}

/-- Whether a leaf reads the upper bound only. -/
def CmpOp.upper : CmpOp → Bool
  | .gt | .gtEq => true
  | .eq | .lt | .ltEq => false

/-- Numerically, some values lie on the side of the literal that the leaf asks for; on
both sides for `=`. -/
def CmpOp.Reaches : CmpOp → List F64 → F64 → Prop
  | .eq, values, w => (∃ y ∈ values, y.le w = true) ∧ ∃ y ∈ values, w.le y = true
  | .lt, values, w => ∃ y ∈ values, y.lt w = true
  | .ltEq, values, w => ∃ y ∈ values, y.le w = true
  | .gt, values, w => ∃ y ∈ values, w.lt y = true
  | .gtEq, values, w => ∃ y ∈ values, w.le y = true

instance : Decidable (op.Reaches values w) := by
  cases op <;> unfold CmpOp.Reaches <;> infer_instance

/-- The leaf lets a file with this column through. -/
def FloatAdmits (op : CmpOp) (slots : ℕ → F64) (cells : List Cell) (w : F64) : Prop :=
  cells.filterMap Cell.float64? = [] ∨ (∀ y ∈ rawFloats slots cells, y.isNaN = true) ∨
    op.Reaches (boundedValues slots cells) w ∧
      (op.upper = true ∨ NanLast (cells.filterMap Cell.float64?) ∨
        ∀ x ∈ cells.filterMap Cell.float64?, x.isNaN = false)

instance : Decidable (FloatAdmits op slots cells w) := inferInstanceAs (Decidable (_ ∨ _ ∨ _))

/-! ### Leaves -/

variable {lo hi : F64} {c : String} {v : Value} {i : ℕ}

/-- The lower bound is a number of the values if one of them is in a set closed
downwards. -/
theorem exists_key_lower {R : ℤ → Prop} (hR : ∀ a b, a ≤ b → R b → R a) (hlo : lo ∈ values)
    (hnan : lo.isNaN = false)
    (h : ∀ y ∈ values, y.isNaN = false → lo.numericKey ≤ y.numericKey) :
    (∃ y ∈ values, y.isNaN = false ∧ R y.numericKey) ↔ R lo.numericKey :=
  ⟨fun ⟨y, hy, hn, hr⟩ => hR _ _ (h y hy hn) hr, fun hr => ⟨lo, hlo, hnan, hr⟩⟩

theorem exists_key_upper {R : ℤ → Prop} (hR : ∀ a b, a ≤ b → R a → R b) (hhi : hi ∈ values)
    (hnan : hi.isNaN = false)
    (h : ∀ y ∈ values, y.isNaN = false → y.numericKey ≤ hi.numericKey) :
    (∃ y ∈ values, y.isNaN = false ∧ R y.numericKey) ↔ R hi.numericKey :=
  ⟨fun ⟨y, hy, hn, hr⟩ => hR _ _ (h y hy hn) hr, fun hr => ⟨hi, hhi, hnan, hr⟩⟩

/-- Bounds that enclose the values let through what the values reach. -/
theorem CmpOp.within_iff (hlo : lo ∈ values) (hhi : hi ∈ values)
    (hlow : op.upper = true ∨ lo.isNaN = false) (hnan : hi.isNaN = false)
    (h : ∀ y ∈ values, y.isNaN = false →
      lo.numericKey ≤ y.numericKey ∧ y.numericKey ≤ hi.numericKey) :
    op.within ⟨.float64 lo, .float64 hi⟩ (.float64 w) = true ↔ op.Reaches values w := by
  have hle : lo.isNaN = false → ((∃ y ∈ values, y.le w = true) ↔ lo.le w = true) := by
    intro hlonan
    have := exists_key_lower (R := fun k => w.isNaN = false ∧ k ≤ w.numericKey)
      (fun a b hab hb => ⟨hb.1, hab.trans hb.2⟩) hlo hlonan fun y hy hn => (h y hy hn).1
    simpa [Binary.le, hlonan, and_assoc] using this
  have hlt : lo.isNaN = false → ((∃ y ∈ values, y.lt w = true) ↔ lo.lt w = true) := by
    intro hlonan
    have := exists_key_lower (R := fun k => w.isNaN = false ∧ k < w.numericKey)
      (fun a b hab hb => ⟨hb.1, hab.trans_lt hb.2⟩) hlo hlonan fun y hy hn => (h y hy hn).1
    simpa [Binary.lt, hlonan, and_assoc] using this
  have hge : (∃ y ∈ values, w.le y = true) ↔ w.le hi = true := by
    have := exists_key_upper (R := fun k => w.isNaN = false ∧ w.numericKey ≤ k)
      (fun a b hab ha => ⟨ha.1, ha.2.trans hab⟩) hhi hnan fun y hy hn => (h y hy hn).2
    simpa [Binary.le, hnan, and_assoc, and_left_comm] using this
  have hgt : (∃ y ∈ values, w.lt y = true) ↔ w.lt hi = true := by
    have := exists_key_upper (R := fun k => w.isNaN = false ∧ w.numericKey < k)
      (fun a b hab ha => ⟨ha.1, ha.2.trans_le hab⟩) hhi hnan fun y hy hn => (h y hy hn).2
    simpa [Binary.lt, hnan, and_assoc, and_left_comm] using this
  cases op with
  | eq =>
    have hlonan := hlow.resolve_left Bool.false_ne_true
    rw [CmpOp.within, CmpOp.Reaches, Bool.and_eq_true, hle hlonan, hge]
    rfl
  | lt => exact (hlt (hlow.resolve_left Bool.false_ne_true)).symm
  | ltEq => exact (hle (hlow.resolve_left Bool.false_ne_true)).symm
  | gt => exact hgt.symm
  | gtEq => exact hge.symm

/-- Bounds in the total order; a lower bound that is NaN lets no leaf through that
reads it. -/
theorem within_totalBounds_iff (hb : bounds totalLt values = some (lo, hi))
    (hnan : hi.isNaN = false) :
    op.within ⟨.float64 lo, .float64 hi⟩ (.float64 w) = true ↔
      op.Reaches values w ∧ (op.upper = true ∨ ∀ x ∈ values, x.isNaN = false) := by
  obtain ⟨hlo, hhi⟩ := bounds_mem hb
  have hspec := bounds_spec Binary.totalKey hb
  have hfirst : (∀ x ∈ values, x.isNaN = false) ↔ lo.isNaN = false := by
    refine ⟨fun hall => hall lo hlo, fun hlo x hx => ?_⟩
    obtain ⟨h₁, h₂⟩ := hspec x hx
    rw [← Bool.not_eq_true, Binary.isNaN_iff_totalKey] at hlo hnan ⊢
    omega
  rw [hfirst]
  by_cases hlow : op.upper = true ∨ lo.isNaN = false
  · rw [and_iff_left hlow]
    exact CmpOp.within_iff hlo hhi hlow hnan fun y hy _ =>
      ⟨Binary.numericKey_le_of_totalKey_le (hspec y hy).1,
        Binary.numericKey_le_of_totalKey_le (hspec y hy).2⟩
  · refine iff_of_false (fun h => hlow ?_) fun h => hlow h.2
    cases op <;> simp_all [CmpOp.within, CmpOp.upper, Value.le, Value.lt, Binary.le, Binary.lt]

/-- The recorded bounds let a leaf through exactly when the column does. -/
theorem floatAdmits_iff : FloatAdmits op slots cells w ↔
    ∀ s, float64Stats slots cells = some s → op.within s (.float64 w) = true := by
  unfold FloatAdmits float64Stats boundedValues
  cases hb : bounds totalLt (cells.filterMap Cell.float64?) with
  | none => simp [bounds_eq_none.mp hb]
  | some p =>
    obtain ⟨lo, hi⟩ := p
    have hne : cells.filterMap Cell.float64? ≠ [] := fun h => by simp [h, bounds] at hb
    have hlast := nanLast_iff hb
    rw [or_iff_right hne]
    dsimp only
    cases hnan : hi.isNaN with
    | true =>
      have henc := float64BoundsIgnoringNan_encloses (rawFloats slots cells)
      simp only [hlast.mpr hnan, if_true, true_or, or_true, and_true]
      cases hign : float64BoundsIgnoringNan (rawFloats slots cells) with
      | none =>
        rw [hign] at henc
        exact iff_of_true (.inl henc) (by simp)
      | some q =>
        obtain ⟨lo', hi'⟩ := q
        rw [hign] at henc
        obtain ⟨hlo, hhi⟩ := float64BoundsIgnoringNan_mem hign
        have hnumber : ¬ ∀ y ∈ rawFloats slots cells, y.isNaN = true := fun hall => by
          have hlonan := henc.1
          simp [hall lo' hlo] at hlonan
        rw [or_iff_right hnumber, ← CmpOp.within_iff hlo hhi (.inr henc.1) henc.2.1 henc.2.2]
        simp
    | false =>
      have hnumber : ¬ ∀ y ∈ rawFloats slots cells, y.isNaN = true := fun hall => by
        simp [hall hi (mem_rawFloats (bounds_mem hb).2)] at hnan
      have hnot : ¬ NanLast (cells.filterMap Cell.float64?) := fun h => by
        simp [hlast.mp h] at hnan
      rw [or_iff_right hnumber, if_neg hnot, or_iff_right hnot, ← within_totalBounds_iff hb hnan]
      simp

/-! ### Trees -/

/-- The tree holds of its leaves. -/
def Predicate.Holds (leaf : CmpOp → String → Value → Prop) : Predicate → Prop
  | .and l r => l.Holds leaf ∧ r.Holds leaf
  | .or l r => l.Holds leaf ∨ r.Holds leaf
  | .eq c v => leaf .eq c v
  | .lt c v => leaf .lt c v
  | .ltEq c v => leaf .ltEq c v
  | .gt c v => leaf .gt c v
  | .gtEq c v => leaf .gtEq c v

/-- A float literal against a float column. -/
def LeafFloat (schema : Schema) (_op : CmpOp) (column : String) (v : Value) : Prop :=
  (∃ i, schema.indexOf column = some i ∧ schema.typeAt i = .float64) ∧ ∃ w, v = .float64 w

/-- The leaf's column lets it through. -/
def ColumnAdmits (slots : Slots) (schema : Schema) (rows : List Row) (op : CmpOp)
    (column : String) (v : Value) : Prop :=
  ∀ i w, schema.indexOf column = some i → v = .float64 w →
    FloatAdmits op (slots i) (rows.map (Row.cell · i)) w

variable {batch : RecordBatch} {raw : Slots} {stats : Stats} {schema : Schema} {rows : List Row}

theorem LeafFloat.typed (h : LeafFloat batch.schema op c v) : LeafTyped batch.schema op c v := by
  obtain ⟨⟨i, hi, htype⟩, w, rfl⟩ := h
  exact ⟨i, hi, by rw [htype]; rfl⟩

theorem columnAdmits_iff {w : F64} (hi : schema.indexOf c = some i) :
    ColumnAdmits raw schema rows op c (.float64 w) ↔
      FloatAdmits op (raw i) (rows.map (Row.cell · i)) w := by
  simp [ColumnAdmits, hi]

/-- Statistics that bound a float column by its slots let a leaf through exactly when
the column does. -/
theorem leafScan_float (hleaf : LeafFloat schema op c v) {s : ColumnStats}
    (hlookup : stats.lookup c = some s)
    (hstats : ∀ i, schema.indexOf c = some i →
      float64Stats (raw i) (rows.map (Row.cell · i)) = some s) :
    leafScan stats op c v = true ↔ ColumnAdmits raw schema rows op c v := by
  obtain ⟨⟨i, hi, -⟩, w, rfl⟩ := hleaf
  have hs := hstats i hi
  have hvariant : s.min.discriminant = 1 ∧ s.max.discriminant = 1 := by
    unfold float64Stats at hs
    split at hs
    · cases hs
    · split at hs
      · obtain ⟨p, -, rfl⟩ := Option.map_eq_some_iff.mp hs
        exact ⟨rfl, rfl⟩
      · cases hs
        exact ⟨rfl, rfl⟩
  rw [columnAdmits_iff hi, floatAdmits_iff, hs, leafScan, leafMayMatch, hlookup]
  simp [hvariant, show (Value.float64 w).discriminant = 1 from rfl]

/-- A tree passes exactly when it holds of the leaves that pass. -/
theorem shouldScanFile_iff_holds {p : Predicate} {L : CmpOp → String → Value → Prop}
    (hp : p.All fun op c v => leafScan stats op c v = true ↔ L op c v) :
    shouldScanFile stats p = true ↔ p.Holds L := by
  induction p with
  | and l r ihl ihr =>
    rw [shouldScanFile, Bool.and_eq_true]
    exact and_congr (ihl hp.1) (ihr hp.2)
  | or l r ihl ihr =>
    rw [shouldScanFile, Bool.or_eq_true]
    exact or_congr (ihl hp.1) (ihr hp.2)
  | _ => exact hp

/-- The statistics of a batch let a tree over its float columns through exactly when the
columns do. -/
theorem shouldScanFile_computeStats {p : Predicate}
    (hn : (batch.schema.fields.map Field.name).Nodup) (hp : p.All (LeafFloat batch.schema)) :
    shouldScanFile (computeStats raw batch) p = true ↔
      p.Holds (ColumnAdmits raw batch.schema batch.rows) := by
  refine shouldScanFile_iff_holds (hp.imp fun op c v hleaf => ?_)
  obtain ⟨⟨i, hi, htype⟩, w, rfl⟩ := hleaf
  obtain ⟨f, hf, rfl, hat⟩ := indexOf_eq_some hi
  have hlookup : (computeStats raw batch).lookup f.name =
      float64Stats (raw i) (batch.rows.map (Row.cell · i)) := by
    rw [lookup_computeStats hn hf, ← hat, htype]
    rfl
  cases hs : (computeStats raw batch).lookup f.name with
  | none =>
    refine iff_of_true ?_ ?_
    · simp [leafScan, leafMayMatch, hs]
    · rw [columnAdmits_iff hi, floatAdmits_iff, ← hlookup, hs]
      simp
  | some s =>
    refine leafScan_float ⟨⟨i, hi, htype⟩, w, rfl⟩ hs fun j hj => ?_
    rw [hi] at hj
    cases hj
    rw [← hlookup, hs]

/-- A tree over float columns is pruned soundly exactly when its statistics let it
through or no row is selected. -/
theorem float_mask_of_pruned_iff {p : Predicate} (hn : (batch.schema.fields.map Field.name).Nodup)
    (hp : p.All (LeafFloat batch.schema)) :
    (∀ m, shouldScanFile (computeStats raw batch) p = false → mask batch p = .ok m →
      ∀ b ∈ m, b ≠ some true) ↔
      ((∃ r ∈ batch.rows, p.eval (rowLeaf batch.schema r) = some true) →
        p.Holds (ColumnAdmits raw batch.schema batch.rows)) := by
  have hm : mask batch p = .ok (batch.rows.map fun r => p.eval (rowLeaf batch.schema r)) :=
    mask_eq_ok.mpr ⟨hp.imp fun _ _ _ h => h.typed, rfl⟩
  rw [← shouldScanFile_computeStats hn hp]
  constructor
  · rintro hsound ⟨r, hr, hsel⟩
    by_contra hskip
    exact hsound _ (by simpa using hskip) hm _ (List.mem_map.mpr ⟨r, hr, hsel⟩) rfl
  · intro hpass m hskip hm'
    obtain rfl := Except.ok.inj (hm.symm.trans hm')
    rintro _ hb rfl
    obtain ⟨r, hr, hsel⟩ := List.mem_map.mp hb
    rw [hpass ⟨r, hr, hsel⟩] at hskip
    cases hskip

end StrataDB.Query
