import Mathlib.Data.List.Induction
import StrataDB.Storage.Manifest

/-! What file statistics promise: every value of the column that compares with
anything lies between the recorded bounds, as long as the bounds are finite. -/

namespace StrataDB.Storage

open Lib Arrow

/-- The value a cell is compared by. -/
def Cell.value? : Cell → Option Value
  | .int64 v => some (.int64 v)
  | .float64 v => some (.float64 v)
  | .utf8 v => some (.utf8 v)
  | _ => none

def Value.isNaN : Value → Bool
  | .float64 v => v.isNaN
  | _ => false

/-- The statistics are of the value's variant, and their bounds enclose it unless
it is NaN. -/
structure ColumnStats.Covers (s : ColumnStats) (x : Value) : Prop where
  min_variant : s.min.discriminant = x.discriminant
  max_variant : s.max.discriminant = x.discriminant
  min_le : x.isNaN = false → s.min.le x = true
  le_max : x.isNaN = false → x.le s.max = true

/-! ### Smallest and largest element -/

section

variable {α β : Type*} [LinearOrder β] (rank : α → β)

variable (vs : List α) (v : α)

theorem foldl_min_spec :
    let lo := vs.foldl (fun m x => if decide (rank x < rank m) then x else m) v
    ∀ x ∈ v :: vs, rank lo ≤ rank x := by
  induction vs generalizing v with
  | nil => simp
  | cons w vs ih =>
    intro lo x hx
    have hstep := ih (if decide (rank w < rank v) then w else v)
    have hhead := hstep _ List.mem_cons_self
    rcases List.mem_cons.mp hx with rfl | hx
    · by_cases hw : rank w < rank x
      · exact hhead.trans (by simp [hw, hw.le])
      · exact hhead.trans (by simp [hw])
    · rcases List.mem_cons.mp hx with rfl | hx
      · by_cases hw : rank x < rank v
        · exact hhead.trans (by simp [hw])
        · exact hhead.trans (by simpa [hw] using not_lt.mp hw)
      · exact hstep x (List.mem_cons_of_mem _ hx)

theorem foldl_max_spec :
    let hi := vs.foldl (fun m x => if decide (rank m < rank x) then x else m) v
    ∀ x ∈ v :: vs, rank x ≤ rank hi :=
  foldl_min_spec (fun x => OrderDual.toDual (rank x)) vs v

theorem bounds_spec {vs : List α} {lo hi : α}
    (h : bounds (fun a b => decide (rank a < rank b)) vs = some (lo, hi)) :
    ∀ x ∈ vs, rank lo ≤ rank x ∧ rank x ≤ rank hi := by
  cases vs with
  | nil => cases h
  | cons v vs =>
    obtain ⟨rfl, rfl⟩ := Prod.mk.inj (Option.some.inj h)
    exact fun x hx => ⟨foldl_min_spec rank vs v x hx, foldl_max_spec rank vs v x hx⟩

end

/-! ### Floats that may be NaN -/

/-- One value joins the bounds collected so far. -/
def float64Join (acc : Option (F64 × F64)) (value : F64) : Option (F64 × F64) :=
  if value.isNaN then acc
  else match acc with
    | none => some (value, value)
    | some (lo, hi) =>
      some (if value.lt lo then value else lo, if hi.lt value then value else hi)

/-- Bounds that enclose every value seen which is a number. -/
def Encloses (seen : List F64) : Option (F64 × F64) → Prop
  | none => ∀ x ∈ seen, x.isNaN = true
  | some (lo, hi) => lo.isNaN = false ∧ hi.isNaN = false ∧
      ∀ x ∈ seen, x.isNaN = false →
        lo.numericKey ≤ x.numericKey ∧ x.numericKey ≤ hi.numericKey

theorem encloses_join {seen : List F64} {acc : Option (F64 × F64)} {value : F64}
    (h : Encloses seen acc) : Encloses (seen ++ [value]) (float64Join acc value) := by
  unfold float64Join
  by_cases hv : value.isNaN = true
  · rw [if_pos hv]
    cases acc with
    | none =>
      intro x hx
      rcases List.mem_append.mp hx with hx | hx
      · exact h x hx
      · rw [List.mem_singleton.mp hx, hv]
    | some p =>
      refine ⟨h.1, h.2.1, fun x hx hnan => ?_⟩
      rcases List.mem_append.mp hx with hx | hx
      · exact h.2.2 x hx hnan
      · rw [List.mem_singleton.mp hx, hv] at hnan
        cases hnan
  · rw [Bool.not_eq_true] at hv
    rw [if_neg (by simp [hv])]
    cases acc with
    | none =>
      refine ⟨hv, hv, fun x hx hnan => ?_⟩
      rcases List.mem_append.mp hx with hx | hx
      · rw [h x hx] at hnan
        cases hnan
      · rw [List.mem_singleton.mp hx]
        exact ⟨le_rfl, le_rfl⟩
    | some p =>
      obtain ⟨lo, hi⟩ := p
      obtain ⟨hlo, hhi, hall⟩ := h
      have hlt : value.lt lo = decide (value.numericKey < lo.numericKey) := by
        simp [Binary.lt, hv, hlo]
      have hgt : hi.lt value = decide (hi.numericKey < value.numericKey) := by
        simp [Binary.lt, hv, hhi]
      simp only [Encloses, hlt, hgt, decide_eq_true_eq]
      refine ⟨by split <;> assumption, by split <;> assumption, fun x hx hnan => ?_⟩
      rcases List.mem_append.mp hx with hx | hx
      · have := hall x hx hnan
        constructor <;> split <;> omega
      · rw [List.mem_singleton.mp hx]
        constructor <;> split <;> omega

theorem float64BoundsIgnoringNan_encloses (values : List F64) :
    Encloses values (float64BoundsIgnoringNan values) := by
  have hfold : ∀ (rest seen : List F64) (acc : Option (F64 × F64)), Encloses seen acc →
      Encloses (seen ++ rest) (rest.foldl float64Join acc) := by
    intro rest
    induction rest with
    | nil => simp
    | cons v rest ih =>
      intro seen acc h
      rw [List.foldl_cons, ← List.singleton_append, ← List.append_assoc]
      exact ih _ _ (encloses_join h)
  exact hfold values [] none (by simp [Encloses])

/-! ### Column statistics -/

variable {cells : List Cell} {s c : ColumnStats} {v lo hi a b : F64} {t : DataType} {x y z : Value}
  {α : Type*} {values : List F64} {batch : RecordBatch} {k : ℕ} {f : Field} {column : String}
  {slots : ℕ → F64} {raw : Slots}

theorem int64Stats_covers (h : int64Stats cells = some s) {v : ℤ} (hv : Cell.int64 v ∈ cells) :
    s.Covers (.int64 v) := by
  obtain ⟨⟨lo, hi⟩, hb, rfl⟩ := Option.map_eq_some_iff.mp h
  have hmem : v ∈ cells.filterMap Cell.int64? := List.mem_filterMap.mpr ⟨_, hv, rfl⟩
  obtain ⟨h₁, h₂⟩ := bounds_spec id hb v hmem
  exact ⟨rfl, rfl, fun _ => by simpa [Value.le] using h₁, fun _ => by simpa [Value.le] using h₂⟩

theorem utf8Stats_covers (h : utf8Stats cells = some s) {v : String} (hv : Cell.utf8 v ∈ cells) :
    s.Covers (.utf8 v) := by
  obtain ⟨⟨lo, hi⟩, hb, rfl⟩ := Option.map_eq_some_iff.mp h
  have hmem : v ∈ cells.filterMap Cell.utf8? := List.mem_filterMap.mpr ⟨_, hv, rfl⟩
  obtain ⟨h₁, h₂⟩ := bounds_spec id hb v hmem
  exact ⟨rfl, rfl, fun _ => by simpa [Value.le] using h₁, fun _ => by simpa [Value.le] using h₂⟩

theorem mem_rawFloats (h : v ∈ cells.filterMap Cell.float64?) : v ∈ rawFloats slots cells := by
  obtain ⟨c, hc, hv⟩ := List.mem_filterMap.mp h
  obtain ⟨i, hi, rfl⟩ := List.mem_iff_getElem.mp hc
  exact List.mem_mapIdx.mpr ⟨i, hi, by rw [hv, Option.getD_some]⟩

theorem float64Stats_covers (h : float64Stats slots cells = some s)
    (hfin : ∀ y ∈ ColumnStats.floats s, y.isFinite = true) (hv : Cell.float64 v ∈ cells) :
    s.Covers (.float64 v) := by
  have hle : ∀ a b : F64, a.isNaN = false → b.isNaN = false → a.numericKey ≤ b.numericKey →
      (Value.float64 a).le (.float64 b) = true := by
    intro a b ha hb hab
    simp [Value.le, Binary.le, ha, hb, hab]
  unfold float64Stats at h
  split at h
  · cases h
  · rename_i lo hi hb
    split at h
    · obtain ⟨⟨lo', hi'⟩, hign, rfl⟩ := Option.map_eq_some_iff.mp h
      have henc := float64BoundsIgnoringNan_encloses (rawFloats slots cells)
      rw [hign] at henc
      have hmem : v ∈ rawFloats slots cells := mem_rawFloats (List.mem_filterMap.mpr ⟨_, hv, rfl⟩)
      exact ⟨rfl, rfl, fun hn => hle _ _ henc.1 hn (henc.2.2 v hmem hn).1,
        fun hn => hle _ _ hn henc.2.1 (henc.2.2 v hmem hn).2⟩
    · obtain rfl := Option.some.inj h
      have hmem : v ∈ cells.filterMap Cell.float64? := List.mem_filterMap.mpr ⟨_, hv, rfl⟩
      obtain ⟨h₁, h₂⟩ := bounds_spec Binary.totalKey hb v hmem
      have hlo := Binary.isNaN_eq_false_of_isFinite (hfin lo (by simp [ColumnStats.floats]))
      have hhi := Binary.isNaN_eq_false_of_isFinite (hfin hi (by simp [ColumnStats.floats]))
      exact ⟨rfl, rfl, fun hn => hle _ _ hlo hn (Binary.numericKey_le_of_totalKey_le h₁),
        fun hn => hle _ _ hn hhi (Binary.numericKey_le_of_totalKey_le h₂)⟩

/-- The statistics of a column cover every value of its cells. -/
theorem columnStats_covers (h : columnStats slots t cells = some s)
    (hfin : ∀ y ∈ ColumnStats.floats s, y.isFinite = true) {c : Cell} (hc : c ∈ cells)
    (htype : c.isNull = true ∨ c.hasType t = true) (hx : Cell.value? c = some x) : s.Covers x := by
  cases c with
  | int64 v =>
    cases hx
    cases t <;> simp_all [columnStats, Cell.hasType, Cell.isNull]
    exact int64Stats_covers h hc
  | float64 v =>
    cases hx
    cases t <;> simp_all [columnStats, Cell.hasType, Cell.isNull]
    exact float64Stats_covers h (by simpa using hfin) hc
  | utf8 v =>
    cases hx
    cases t <;> simp_all [columnStats, Cell.hasType, Cell.isNull]
    exact utf8Stats_covers h hc
  | null => cases hx
  | boolean v => cases hx
  | uint64 v => cases hx
  | vector v => cases hx
  | other v => cases hx

/-! ### When the bounds are finite -/

theorem foldl_select_mem (pick : α → α → Bool) (vs : List α) (v : α) :
    vs.foldl (fun m x => if pick m x then x else m) v ∈ v :: vs := by
  induction vs generalizing v with
  | nil => simp
  | cons w vs ih =>
    rw [List.foldl_cons]
    split
    · exact List.mem_cons_of_mem _ (ih w)
    · rcases List.mem_cons.mp (ih v) with h | h
      · rw [h]
        exact List.mem_cons_self
      · exact List.mem_cons_of_mem _ (List.mem_cons_of_mem _ h)

theorem bounds_mem {key : α → α → Bool} {vs : List α} {lo hi : α}
    (h : bounds key vs = some (lo, hi)) : lo ∈ vs ∧ hi ∈ vs := by
  cases vs with
  | nil => cases h
  | cons v vs =>
    obtain ⟨rfl, rfl⟩ := Prod.mk.inj (Option.some.inj h)
    exact ⟨foldl_select_mem (fun m x => key x m) vs v, foldl_select_mem key vs v⟩

theorem float64BoundsIgnoringNan_mem (h : float64BoundsIgnoringNan values = some (lo, hi)) :
    lo ∈ values ∧ hi ∈ values := by
  have hfold : ∀ (rest : List F64) (acc : Option (F64 × F64)),
      (∀ p, acc = some p → p.1 ∈ values ∧ p.2 ∈ values) → (∀ v ∈ rest, v ∈ values) →
      ∀ p, rest.foldl float64Join acc = some p → p.1 ∈ values ∧ p.2 ∈ values := by
    intro rest
    induction rest with
    | nil => exact fun acc hacc _ => hacc
    | cons v rest ih =>
      intro acc hacc hrest
      refine ih _ (fun p hp => ?_) fun w hw => hrest w (List.mem_cons_of_mem _ hw)
      have hv := hrest v List.mem_cons_self
      unfold float64Join at hp
      split at hp
      · exact hacc p hp
      · cases acc with
        | none => cases hp; exact ⟨hv, hv⟩
        | some q =>
          obtain ⟨h₁, h₂⟩ := hacc q rfl
          cases hp
          constructor <;> dsimp only <;> split <;> assumption
  exact hfold values none (by simp) (fun _ hv => hv) (lo, hi) h

/-- The last value of a column in the total order is NaN. -/
def NanLast (values : List F64) : Prop :=
  (∃ x ∈ values, x.isNaN = true ∧ x.negative = false) ∨ ∀ x ∈ values, x.isNaN = true

instance (values : List F64) : Decidable (NanLast values) := inferInstanceAs (Decidable (_ ∨ _))

/-- The values the recorded bounds are taken of: if the last one is NaN, the whole
value buffer. -/
def boundedValues (slots : ℕ → F64) (cells : List Cell) : List F64 :=
  if NanLast (cells.filterMap Cell.float64?) then rawFloats slots cells
  else cells.filterMap Cell.float64?

/-- A column without values, or bounded values that are finite, apart from the NaNs that
the numeric bounds skip. -/
def FiniteBounds (slots : ℕ → F64) (cells : List Cell) : Prop :=
  cells.filterMap Cell.float64? = [] ∨ ∀ v ∈ boundedValues slots cells,
    v.isFinite = true ∨ v.isNaN = true ∧ NanLast (cells.filterMap Cell.float64?)

instance (slots : ℕ → F64) (cells : List Cell) : Decidable (FiniteBounds slots cells) :=
  inferInstanceAs (Decidable (_ ∨ _))

theorem nanLast_iff (hb : bounds totalLt values = some (lo, hi)) :
    NanLast values ↔ hi.isNaN = true := by
  have hlast := fun v hv => (bounds_spec Binary.totalKey hb v hv).2
  have hhi := (bounds_mem hb).2
  constructor
  · rintro (⟨x, hx, hnan, hpos⟩ | hall)
    · have hneg : ¬ x.totalKey < 0 := by
        rw [← Binary.negative_iff_totalKey, hpos]
        decide
      have hle := hlast x hx
      rw [Binary.isNaN_iff_totalKey] at hnan ⊢
      omega
    · exact hall hi hhi
  · intro hnan
    cases hneg : hi.negative with
    | false => exact .inl ⟨hi, hhi, hnan, hneg⟩
    | true =>
      -- a negative NaN comes last only if nothing else is there
      refine .inr fun v hv => ?_
      have hle := hlast v hv
      rw [Binary.negative_iff_totalKey] at hneg
      rw [Binary.isNaN_iff_totalKey] at hnan ⊢
      omega

theorem finite_bounds_iff (hb : bounds totalLt values = some (lo, hi)) :
    (lo.isFinite = true ∧ hi.isFinite = true) ↔ ∀ v ∈ values, v.isFinite = true := by
  obtain ⟨hlo, hhi⟩ := bounds_mem hb
  refine ⟨fun ⟨hflo, hfhi⟩ v hv => ?_, fun hall => ⟨hall lo hlo, hall hi hhi⟩⟩
  obtain ⟨h₁, h₂⟩ := bounds_spec Binary.totalKey hb v hv
  rw [Binary.isFinite_iff_totalKey] at hflo hfhi ⊢
  omega

theorem finite_numericBounds_iff (values : List F64) :
    (∀ p, float64BoundsIgnoringNan values = some p → p.1.isFinite = true ∧ p.2.isFinite = true) ↔
      ∀ v ∈ values, v.isFinite = true ∨ v.isNaN = true := by
  have henc := float64BoundsIgnoringNan_encloses values
  constructor
  · intro hfin v hv
    rw [or_iff_not_imp_right, Bool.not_eq_true]
    intro hn
    cases hign : float64BoundsIgnoringNan values with
    | none =>
      rw [hign] at henc
      rw [henc v hv] at hn
      cases hn
    | some p =>
      rw [hign] at henc
      obtain ⟨h₁, h₂⟩ := henc.2.2 v hv hn
      obtain ⟨hflo, hfhi⟩ := hfin p hign
      rw [Binary.isFinite_iff_numericKey] at hflo hfhi ⊢
      omega
  · intro hall p hign
    rw [hign] at henc
    obtain ⟨hlo, hhi⟩ := float64BoundsIgnoringNan_mem hign
    exact ⟨(hall _ hlo).resolve_right (by simp [henc.1]),
      (hall _ hhi).resolve_right (by simp [henc.2.1])⟩

theorem floats_finite_iff (lo hi : F64) :
    (∀ y ∈ ColumnStats.floats ⟨.float64 lo, .float64 hi⟩, y.isFinite = true) ↔
      lo.isFinite = true ∧ hi.isFinite = true := by
  simp [ColumnStats.floats]

theorem bounds_eq_none {key : α → α → Bool} {vs : List α} : bounds key vs = none ↔ vs = [] := by
  cases vs <;> simp [bounds]

/-- The statistics of a float column are finite exactly when its slots say so. -/
theorem float64Stats_finite_iff (slots : ℕ → F64) (cells : List Cell) :
    (∀ s, float64Stats slots cells = some s → ∀ y ∈ ColumnStats.floats s, y.isFinite = true) ↔
      FiniteBounds slots cells := by
  unfold float64Stats FiniteBounds boundedValues
  cases hb : bounds totalLt (cells.filterMap Cell.float64?) with
  | none => simp [bounds_eq_none.mp hb]
  | some p =>
    obtain ⟨lo, hi⟩ := p
    have hne : cells.filterMap Cell.float64? ≠ [] := fun h => by simp [h, bounds] at hb
    have hlast := nanLast_iff hb
    rw [or_iff_right hne]
    dsimp only
    by_cases hnan : hi.isNaN = true
    · simp only [if_pos hnan, hlast.mpr hnan, if_true, and_true]
      rw [← finite_numericBounds_iff]
      constructor
      · intro h p hp
        exact (floats_finite_iff p.1 p.2).mp (h _ (by rw [hp]; rfl))
      · intro h s hs
        obtain ⟨p, hp, rfl⟩ := Option.map_eq_some_iff.mp hs
        exact (floats_finite_iff p.1 p.2).mpr (h p hp)
    · have hnot := mt hlast.mp hnan
      simp only [if_neg hnan, hnot, if_false, and_false, or_false]
      rw [← finite_bounds_iff hb, ← floats_finite_iff]
      simp only [Option.some.injEq, forall_eq']

/-! ### Statistics of a batch -/

/-- Entries joined to statistics, one item after another. -/
def insertEntries {ι : Type*} (name : ι → String) (entry : ι → Option ColumnStats)
    (stats : Stats) (items : List ι) : Stats :=
  items.foldl (fun stats i =>
    match entry i with
    | some e => stats.insert (name i) e
    | none => stats) stats

section

variable {ι : Type*} {name : ι → String} {entry : ι → Option ColumnStats} {stats : Stats}
  {items : List ι} {column : String} {s : ColumnStats}

theorem insertEntries_lookup (h : (insertEntries name entry stats items).lookup column = some s) :
    stats.lookup column = some s ∨ ∃ i ∈ items, name i = column ∧ entry i = some s := by
  induction items generalizing stats with
  | nil => exact .inl h
  | cons i items ih =>
    rcases ih h with hlast | ⟨j, hj, hs⟩
    · dsimp only at hlast
      split at hlast
      · rename_i e he
        by_cases hn : name i = column
        · subst hn
          rw [AList.lookup_insert] at hlast
          cases hlast
          exact .inr ⟨i, List.mem_cons_self, rfl, he⟩
        · rw [AList.lookup_insert_ne (Ne.symm hn)] at hlast
          exact .inl hlast
      · exact .inl hlast
    · exact .inr ⟨j, List.mem_cons_of_mem _ hj, hs⟩

theorem mem_insertEntries_of_mem (h : column ∈ stats) :
    column ∈ insertEntries name entry stats items := by
  induction items generalizing stats with
  | nil => exact h
  | cons i items ih =>
    refine ih ?_
    dsimp only
    split
    · exact (AList.mem_insert _).mpr (.inr h)
    · exact h

theorem mem_insertEntries {i : ι} (hi : i ∈ items) (hs : entry i = some s) :
    name i ∈ insertEntries name entry stats items := by
  induction items generalizing stats with
  | nil => cases hi
  | cons j items ih =>
    rcases List.mem_cons.mp hi with rfl | hi
    · rw [insertEntries, List.foldl_cons, hs]
      exact mem_insertEntries_of_mem ((AList.mem_insert _).mpr (.inl rfl))
    · exact ih hi

end

theorem computeStats_eq (raw : Slots) (batch : RecordBatch) : computeStats raw batch =
    insertEntries (fun p : Field × ℕ => p.1.name)
      (fun p => columnStats (raw p.2) p.1.dataType (batch.column p.2)) ∅
      batch.schema.fields.zipIdx := rfl

/-- An entry of `compute_stats` comes from a column of that name. -/
theorem computeStats_lookup {name : String} (h : (computeStats raw batch).lookup name = some s) :
    ∃ k f, batch.schema.fields[k]? = some f ∧ f.name = name ∧
      columnStats (raw k) f.dataType (batch.column k) = some s := by
  rw [computeStats_eq] at h
  rcases insertEntries_lookup h with hnil | ⟨⟨f, k⟩, hp, hname, hstats⟩
  · simp at hnil
  · exact ⟨k, f, List.mem_zipIdx_iff_getElem?.mp hp, hname, hstats⟩

/-- A column with statistics has an entry under its name. -/
theorem mem_computeStats (hk : batch.schema.fields[k]? = some f)
    (hs : columnStats (raw k) f.dataType (batch.column k) = some s) :
    f.name ∈ computeStats raw batch := by
  rw [computeStats_eq]
  have hmem : (f, k) ∈ batch.schema.fields.zipIdx := List.mem_zipIdx_iff_getElem?.mpr hk
  exact mem_insertEntries (i := (f, k)) hmem hs

/-- With distinct names, every column with statistics has its entry. -/
theorem lookup_computeStats (hn : (batch.schema.fields.map Field.name).Nodup)
    (hk : batch.schema.fields[k]? = some f) :
    (computeStats raw batch).lookup f.name = columnStats (raw k) f.dataType (batch.column k) := by
  cases hstats : (computeStats raw batch).lookup f.name with
  | some s =>
    obtain ⟨k', f', hk', hname, hs⟩ := computeStats_lookup hstats
    have hkk : k' = k := by
      have hlt : k' < (batch.schema.fields.map Field.name).length := by
        simpa using (List.getElem?_eq_some_iff.mp hk').1
      exact (List.getElem?_inj hlt hn).mp (by simp [hk, hk', hname])
    subst hkk
    rw [hk] at hk'
    cases hk'
    exact hs.symm
  | none =>
    cases hs : columnStats (raw k) f.dataType (batch.column k) with
    | none => rfl
    | some s =>
      exact absurd (mem_computeStats hk hs) (AList.lookup_eq_none.mp hstats)

theorem floats_of_not_float64 (ht : t ≠ .float64) (h : columnStats slots t cells = some s) :
    ColumnStats.floats s = [] := by
  cases t <;> simp only [columnStats, reduceCtorEq, ne_eq, not_true_eq_false] at h ht
  · obtain ⟨p, -, rfl⟩ := Option.map_eq_some_iff.mp h
    rfl
  · obtain ⟨p, -, rfl⟩ := Option.map_eq_some_iff.mp h
    rfl

theorem mem_floats_iff {stats : Stats} {y : F64} :
    y ∈ Stats.floats stats ↔ ∃ name s, stats.lookup name = some s ∧ y ∈ ColumnStats.floats s := by
  simp only [Stats.floats, List.mem_flatMap]
  constructor
  · rintro ⟨⟨name, s⟩, he, hy⟩
    exact ⟨name, s, AList.mem_lookup_iff.mpr he, hy⟩
  · rintro ⟨name, s, hs, hy⟩
    exact ⟨⟨name, s⟩, AList.mem_lookup_iff.mp hs, hy⟩

/-- The floats of a batch's statistics are the bounds of its float columns. -/
theorem forall_floats_computeStats (hn : (batch.schema.fields.map Field.name).Nodup)
    (Q : F64 → Prop) :
    (∀ y ∈ Stats.floats (computeStats raw batch), Q y) ↔
      ∀ k f, batch.schema.fields[k]? = some f → f.dataType = .float64 →
        ∀ s, float64Stats (raw k) (batch.column k) = some s → ∀ y ∈ ColumnStats.floats s, Q y := by
  constructor
  · intro h k f hk hf s hs y hy
    refine h y (mem_floats_iff.mpr ⟨f.name, s, ?_, hy⟩)
    rw [lookup_computeStats hn hk, hf]
    exact hs
  · intro h y hy
    obtain ⟨name, s, hs, hy⟩ := mem_floats_iff.mp hy
    obtain ⟨k, f, hk, -, hs⟩ := computeStats_lookup hs
    by_cases hf : f.dataType = .float64
    · rw [hf] at hs
      exact h k f hk hf s hs y hy
    · rw [floats_of_not_float64 hf hs] at hy
      cases hy

/-! ### Merged statistics -/

theorem float64Min_spec (ha : a.isFinite = true) (hb : b.isFinite = true) :
    (float64Min a b).isFinite = true ∧ (float64Min a b).le a = true ∧
      (float64Min a b).le b = true := by
  have hna := Binary.isNaN_eq_false_of_isFinite ha
  have hnb := Binary.isNaN_eq_false_of_isFinite hb
  have hlt : b.lt a = decide (b.numericKey < a.numericKey) := by simp [Binary.lt, hna, hnb]
  simp only [float64Min, hna, hnb, hlt, Bool.false_eq_true, if_false, decide_eq_true_eq]
  split
  · exact ⟨hb, by simp [Binary.le, hna, hnb]; omega, by simp [Binary.le, hnb]⟩
  · exact ⟨ha, by simp [Binary.le, hna], by simp [Binary.le, hna, hnb]; omega⟩

theorem float64Max_spec (ha : a.isFinite = true) (hb : b.isFinite = true) :
    (float64Max a b).isFinite = true ∧ a.le (float64Max a b) = true ∧
      b.le (float64Max a b) = true := by
  have hna := Binary.isNaN_eq_false_of_isFinite ha
  have hnb := Binary.isNaN_eq_false_of_isFinite hb
  have hlt : a.lt b = decide (a.numericKey < b.numericKey) := by simp [Binary.lt, hna, hnb]
  simp only [float64Max, hna, hnb, hlt, Bool.false_eq_true, if_false, decide_eq_true_eq]
  split
  · exact ⟨hb, by simp [Binary.le, hna, hnb]; omega, by simp [Binary.le, hnb]⟩
  · exact ⟨ha, by simp [Binary.le, hna], by simp [Binary.le, hna, hnb]; omega⟩

/-- Bounds that are at least as wide, in the same variant. -/
structure ColumnStats.Widens (c a : ColumnStats) : Prop where
  min_variant : c.min.discriminant = a.min.discriminant
  max_variant : c.max.discriminant = a.max.discriminant
  min_le : c.min.le a.min = true
  le_max : a.max.le c.max = true

theorem Value.le_trans (hxy : x.discriminant = y.discriminant)
    (hyz : y.discriminant = z.discriminant) (h : x.le y = true) (h' : y.le z = true) :
    x.le z = true := by
  cases x <;> cases y <;> cases z <;> simp only [Value.discriminant,
    OfNat.ofNat_ne_zero, OfNat.ofNat_ne_one, OfNat.zero_ne_ofNat, OfNat.one_ne_ofNat, zero_ne_one,
    one_ne_zero] at hxy hyz
  · simp only [Value.le, decide_eq_true_eq] at h h' ⊢
    exact h.trans h'
  · simp only [Value.le, Binary.le, Bool.and_eq_true, decide_eq_true_eq] at h h' ⊢
    exact ⟨⟨h.1.1, h'.1.2⟩, h.2.trans h'.2⟩
  · simp only [Value.le, decide_eq_true_eq] at h h' ⊢
    exact h.trans h'

theorem Value.variant_cases (h : x.discriminant = y.discriminant) :
    (∃ a b, x = .int64 a ∧ y = .int64 b) ∨ (∃ a b, x = .float64 a ∧ y = .float64 b) ∨
      ∃ a b, x = .utf8 a ∧ y = .utf8 b := by
  cases x <;> cases y <;> simp_all [Value.discriminant]

theorem Value.lt_of_le_of_lt (hxy : x.discriminant = y.discriminant)
    (hyz : y.discriminant = z.discriminant) (h : x.le y = true) (h' : y.lt z = true) :
    x.lt z = true := by
  rcases variant_cases hxy with ⟨a, b, rfl, rfl⟩ | ⟨a, b, rfl, rfl⟩ | ⟨a, b, rfl, rfl⟩ <;>
    rcases variant_cases hyz with ⟨_, c, ⟨⟩, rfl⟩ | ⟨_, c, ⟨⟩, rfl⟩ | ⟨_, c, ⟨⟩, rfl⟩
  · simp only [Value.le, Value.lt, decide_eq_true_eq] at h h' ⊢
    exact h.trans_lt h'
  · simp only [Value.le, Value.lt, Binary.le, Binary.lt, Bool.and_eq_true, decide_eq_true_eq]
      at h h' ⊢
    exact ⟨⟨h.1.1, h'.1.2⟩, h.2.trans_lt h'.2⟩
  · simp only [Value.le, Value.lt, decide_eq_true_eq] at h h' ⊢
    exact h.trans_lt h'

theorem Value.lt_of_lt_of_le (hxy : x.discriminant = y.discriminant)
    (hyz : y.discriminant = z.discriminant) (h : x.lt y = true) (h' : y.le z = true) :
    x.lt z = true := by
  rcases variant_cases hxy with ⟨a, b, rfl, rfl⟩ | ⟨a, b, rfl, rfl⟩ | ⟨a, b, rfl, rfl⟩ <;>
    rcases variant_cases hyz with ⟨_, c, ⟨⟩, rfl⟩ | ⟨_, c, ⟨⟩, rfl⟩ | ⟨_, c, ⟨⟩, rfl⟩
  · simp only [Value.le, Value.lt, decide_eq_true_eq] at h h' ⊢
    exact h.trans_le h'
  · simp only [Value.le, Value.lt, Binary.le, Binary.lt, Bool.and_eq_true, decide_eq_true_eq]
      at h h' ⊢
    exact ⟨⟨h.1.1, h'.1.2⟩, h.2.trans_le h'.2⟩
  · simp only [Value.le, Value.lt, decide_eq_true_eq] at h h' ⊢
    exact h.trans_le h'

theorem ColumnStats.Widens.covers {a : ColumnStats} (h : c.Widens a) (hx : a.Covers x) :
    c.Covers x where
  min_variant := h.min_variant.trans hx.min_variant
  max_variant := h.max_variant.trans hx.max_variant
  min_le hn := Value.le_trans h.min_variant hx.min_variant h.min_le (hx.min_le hn)
  le_max hn := Value.le_trans hx.max_variant.symm h.max_variant.symm (hx.le_max hn) h.le_max

/-- Merged bounds are finite and at least as wide as either side. -/
theorem mergeColumnStats_widens {a b : ColumnStats} (h : mergeColumnStats a b = some c)
    (ha : ∀ y ∈ ColumnStats.floats a, y.isFinite = true)
    (hb : ∀ y ∈ ColumnStats.floats b, y.isFinite = true) :
    (∀ y ∈ ColumnStats.floats c, y.isFinite = true) ∧ c.Widens a ∧ c.Widens b := by
  obtain ⟨aMin, aMax⟩ := a
  obtain ⟨bMin, bMax⟩ := b
  unfold mergeColumnStats at h
  dsimp only at h
  split at h
  · obtain rfl := Option.some.inj h
    refine ⟨by simp [ColumnStats.floats], ⟨rfl, rfl, ?_, ?_⟩, ⟨rfl, rfl, ?_, ?_⟩⟩ <;>
      simp [Value.le]
  · obtain rfl := Option.some.inj h
    rw [floats_finite_iff] at ha hb ⊢
    obtain ⟨hmin, hminA, hminB⟩ := float64Min_spec ha.1 hb.1
    obtain ⟨hmax, hmaxA, hmaxB⟩ := float64Max_spec ha.2 hb.2
    exact ⟨⟨hmin, hmax⟩, ⟨rfl, rfl, hminA, hmaxA⟩, ⟨rfl, rfl, hminB, hmaxB⟩⟩
  · obtain rfl := Option.some.inj h
    refine ⟨by simp [ColumnStats.floats], ⟨rfl, rfl, ?_, ?_⟩, ⟨rfl, rfl, ?_, ?_⟩⟩ <;>
      simp only [Value.le, decide_eq_true_eq] <;> split <;>
        first | exact le_rfl | exact le_of_lt ‹_› | exact not_lt.mp ‹_›
  · cases h

theorem mergeZoneMapStats_lookup {accumulated batchStats : Stats}
    (h : (mergeZoneMapStats accumulated batchStats false).lookup column = some c) :
    ∃ a b, accumulated.lookup column = some a ∧ batchStats.lookup column = some b ∧
      mergeColumnStats a b = some c := by
  have hentries : mergeZoneMapStats accumulated batchStats false =
      insertEntries (fun e : Sigma fun _ : String => ColumnStats => e.1)
        (fun e => (batchStats.lookup e.1).bind (mergeColumnStats e.2)) ∅ accumulated.entries := rfl
  rw [hentries] at h
  rcases insertEntries_lookup h with hnil | ⟨⟨name, a⟩, he, rfl, hc⟩
  · simp at hnil
  · obtain ⟨b, hb, hc⟩ := Option.bind_eq_some_iff.mp hc
    exact ⟨a, b, AList.mem_lookup_iff.mpr he, hb, hc⟩

theorem zoneMapOf_concat (files : List Stats) (stats : Stats) :
    zoneMapOf (files ++ [stats]) =
      mergeZoneMapStats (zoneMapOf files) stats (files.length == 0) := by
  simp [zoneMapOf, List.zipIdx_append]

theorem floats_mergeColumnStats {a b : ColumnStats} (h : mergeColumnStats a b = some c) {y : F64}
    (hy : y ∈ ColumnStats.floats c) : y ∈ ColumnStats.floats a ∨ y ∈ ColumnStats.floats b := by
  have hmin : ∀ p q, float64Min p q = p ∨ float64Min p q = q := fun p q => by
    unfold float64Min
    split_ifs <;> simp
  have hmax : ∀ p q, float64Max p q = p ∨ float64Max p q = q := fun p q => by
    unfold float64Max
    split_ifs <;> simp
  obtain ⟨aMin, aMax⟩ := a
  obtain ⟨bMin, bMax⟩ := b
  unfold mergeColumnStats at h
  dsimp only at h
  split at h
  · cases h
    simp [ColumnStats.floats] at hy
  · rename_i aMin bMin aMax bMax
    cases h
    have := hmin aMin bMin
    have := hmax aMax bMax
    simp only [ColumnStats.floats] at hy ⊢
    grind
  · cases h
    simp [ColumnStats.floats] at hy
  · cases h

theorem floats_zoneMapOf {files : List Stats} {y : F64} (hy : y ∈ Stats.floats (zoneMapOf files)) :
    ∃ s ∈ files, y ∈ Stats.floats s := by
  induction files using List.reverseRecOn with
  | nil => cases hy
  | append_singleton files stats ih =>
    rw [zoneMapOf_concat] at hy
    cases hfiles : files with
    | nil => exact ⟨stats, by simp, by simpa [hfiles, mergeZoneMapStats] using hy⟩
    | cons f fs =>
      obtain ⟨name, c, hc, hy⟩ := mem_floats_iff.mp hy
      rw [show (files.length == 0) = false by simp [hfiles]] at hc
      obtain ⟨a, b, ha, hb, hmerge⟩ := mergeZoneMapStats_lookup hc
      rw [← hfiles]
      rcases floats_mergeColumnStats hmerge hy with hy | hy
      · obtain ⟨s, hs, hy⟩ := ih (mem_floats_iff.mpr ⟨name, a, ha, hy⟩)
        exact ⟨s, List.mem_append_left _ hs, hy⟩
      · exact ⟨stats, by simp, mem_floats_iff.mpr ⟨name, b, hb, hy⟩⟩

/-- An entry of a zone map is at least as wide as every file's entry of that name. -/
theorem zoneMapOf_lookup {files : List Stats}
    (hfin : ∀ s ∈ files, ∀ y ∈ Stats.floats s, y.isFinite = true)
    (h : (zoneMapOf files).lookup column = some c) :
    (∀ y ∈ ColumnStats.floats c, y.isFinite = true) ∧
      ∀ s ∈ files, ∃ e, s.lookup column = some e ∧ ∀ x, e.Covers x → c.Covers x := by
  have hentry : ∀ s ∈ files, ∀ e, s.lookup column = some e →
      ∀ y ∈ ColumnStats.floats e, y.isFinite = true := fun s hs e he y hy =>
    hfin s hs y (mem_floats_iff.mpr ⟨column, e, he, hy⟩)
  induction files using List.reverseRecOn generalizing c with
  | nil => simp [zoneMapOf] at h
  | append_singleton files stats ih =>
    rw [zoneMapOf_concat] at h
    have hlast := hentry stats (by simp)
    cases hfiles : files with
    | nil =>
      subst hfiles
      exact ⟨hlast c h, by simpa using ⟨c, h, fun _ hx => hx⟩⟩
    | cons f fs =>
      rw [hfiles, List.length_cons] at h
      obtain ⟨a, b, ha, hb, hc⟩ := mergeZoneMapStats_lookup h
      rw [← hfiles] at ha
      obtain ⟨hafin, hcover⟩ := ih (fun s hs => hfin s (List.mem_append_left _ hs)) ha
        fun s hs => hentry s (List.mem_append_left _ hs)
      obtain ⟨hcfin, hca, hcb⟩ := mergeColumnStats_widens hc hafin (hlast b hb)
      refine ⟨hcfin, fun s hs => ?_⟩
      rw [← hfiles] at hs
      rcases List.mem_append.mp hs with hs | hs
      · obtain ⟨e, he, hx⟩ := hcover s hs
        exact ⟨e, he, fun x hex => hca.covers (hx x hex)⟩
      · obtain rfl := List.mem_singleton.mp hs
        exact ⟨b, hb, fun x hbx => hcb.covers hbx⟩

end StrataDB.Storage
