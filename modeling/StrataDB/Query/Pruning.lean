import StrataDB.Query.Mask
import StrataDB.Storage.StatsBounds

/-! File-level pruning against row-level filtering. A leaf whose kernel answers
true on some value of a column that the statistics cover passes `should_scan_file`
as soon as the comparison of `Value` agrees with the kernel there; the connectives
keep that, since a Kleene conjunction is true only if both sides are, and a
disjunction only if one side is. -/

namespace StrataDB.Query

open Lib Arrow Storage

variable {stats : Stats} {op : CmpOp} {column : String} {v : Value} {p : Predicate}

/-! ### Leaves -/

/-- The comparisons of `Value`, which are false on NaN. -/
def CmpOp.numeric : CmpOp → Value → Value → Bool
  | .eq, x, v => x.le v && v.le x
  | .lt, x, v => x.lt v
  | .ltEq, x, v => x.le v
  | .gt, x, v => v.lt x
  | .gtEq, x, v => v.le x

/-- Whether the bounds leave room for a match. -/
def CmpOp.within : CmpOp → ColumnStats → Value → Bool
  | .eq, s, v => s.min.le v && v.le s.max
  | .lt, s, v => s.min.lt v
  | .ltEq, s, v => s.min.le v
  | .gt, s, v => v.lt s.max
  | .gtEq, s, v => v.le s.max

/-- `should_scan_file` on a leaf. -/
def leafScan (stats : Stats) (op : CmpOp) (column : String) (v : Value) : Bool :=
  leafMayMatch stats column v (op.within · v)

/-- The relation that a kernel decides in a total order. -/
def CmpOp.rel {α : Type*} [LE α] [LT α] : CmpOp → α → α → Prop
  | .eq, a, b => a = b
  | .lt, a, b => a < b
  | .ltEq, a, b => a ≤ b
  | .gt, a, b => b < a
  | .gtEq, a, b => b ≤ a

theorem CmpOp.holds_iff {α : Type*} [LinearOrder α] {a b : α} {_ : Decidable (a < b)}
    {_ : Decidable (a = b)} : op.holds (decide (a < b)) (decide (a = b)) = true ↔ op.rel a b := by
  cases op with
  | eq => simp [holds, rel]
  | lt => simp [holds, rel]
  | ltEq => simp [holds, rel, le_iff_lt_or_eq]
  | gt =>
    simp only [holds, rel, Bool.not_eq_true', Bool.or_eq_false_iff, decide_eq_false_iff_not,
      ← not_or, ← le_iff_lt_or_eq, not_le]
  | gtEq => simp [holds, rel]

variable {x : Value} {c : Cell} {P Q : CmpOp → String → Value → Prop} {schema : Schema}

theorem CmpOp.numeric_not_nan (hv : x.discriminant = v.discriminant) (h : op.numeric x v = true) :
    x.isNaN = false := by
  rcases Value.variant_cases hv with ⟨a, b, rfl, rfl⟩ | ⟨a, b, rfl, rfl⟩ | ⟨a, b, rfl, rfl⟩
  · rfl
  · cases op <;>
      simp_all [CmpOp.numeric, Value.le, Value.lt, Binary.le, Binary.lt, Value.isNaN]
  · rfl

/-- A match in the covered range is within the bounds. -/
theorem CmpOp.within_of_covers {s : ColumnStats} (hc : s.Covers x)
    (hv : x.discriminant = v.discriminant) (h : op.numeric x v = true) : op.within s v = true := by
  have hnan := numeric_not_nan hv h
  have hmin := hc.min_le hnan
  have hmax := hc.le_max hnan
  cases op with
  | eq =>
    rw [CmpOp.numeric, Bool.and_eq_true] at h
    rw [CmpOp.within, Bool.and_eq_true]
    exact ⟨Value.le_trans hc.min_variant hv hmin h.1,
      Value.le_trans hv.symm hc.max_variant.symm h.2 hmax⟩
  | lt => exact Value.lt_of_le_of_lt hc.min_variant hv hmin h
  | ltEq => exact Value.le_trans hc.min_variant hv hmin h
  | gt => exact Value.lt_of_lt_of_le hv.symm hc.max_variant.symm h hmax
  | gtEq => exact Value.le_trans hv.symm hc.max_variant.symm h hmax

theorem leafScan_of_covers (hc : ∀ s, stats.lookup column = some s → s.Covers x)
    (h : op.numeric x v = true) : leafScan stats op column v = true := by
  unfold leafScan leafMayMatch
  split
  · rfl
  · rename_i s hs
    split
    · rfl
    · rename_i hsame
      rw [not_or, not_ne_iff, not_ne_iff] at hsame
      exact CmpOp.within_of_covers (hc s hs) ((hc s hs).min_variant.symm.trans hsame.1.symm) h

/-- Where the kernel answers true, the comparison of `Value` does. -/
def Agrees (op : CmpOp) (c : Cell) (v : Value) : Prop :=
  op.cell c v = some true → ∀ x, Cell.value? c = some x → op.numeric x v = true

theorem exists_value_of_cell {b : Bool} (h : op.cell c v = some b) :
    ∃ x, Cell.value? c = some x := by
  cases c <;> first
    | exact ⟨_, rfl⟩
    | (cases v <;> cases h)

/-- Integers and strings have one order only. -/
theorem agrees_of_not_float (hv : literalType v ≠ .float64) : Agrees op c v := by
  intro hsel x hx
  cases c <;> cases v <;> first
    | cases hsel
    | exact absurd rfl hv
    | skip
  · cases hx
    have hrel := CmpOp.holds_iff.mp (Option.some.inj hsel)
    cases op <;> simp_all [CmpOp.rel, CmpOp.numeric, Value.le, Value.lt]
  · cases hx
    have hrel := CmpOp.holds_iff.mp (Option.some.inj hsel)
    cases op <;> simp_all only [CmpOp.rel, CmpOp.numeric, Value.le, Value.lt, le_refl,
      Bool.and_self, decide_true]

/-! ### Trees -/

theorem Predicate.All.imp (h : ∀ op c v, P op c v → Q op c v) (hp : p.All P) : p.All Q := by
  induction p with
  | and l r ihl ihr => exact ⟨ihl hp.1, ihr hp.2⟩
  | or l r ihl ihr => exact ⟨ihl hp.1, ihr hp.2⟩
  | _ => exact h _ _ _ hp

theorem Predicate.All.and (hp : p.All P) (hq : p.All Q) :
    p.All fun op c v => P op c v ∧ Q op c v := by
  induction p with
  | and l r ihl ihr => exact ⟨ihl hp.1 hq.1, ihr hp.2 hq.2⟩
  | or l r ihl ihr => exact ⟨ihl hp.1 hq.1, ihr hp.2 hq.2⟩
  | _ => exact ⟨hp, hq⟩

/-- The predicate of a single leaf. -/
def CmpOp.leaf : CmpOp → String → Value → Predicate
  | .eq => .eq
  | .lt => .lt
  | .ltEq => .ltEq
  | .gt => .gt
  | .gtEq => .gtEq

@[simp] theorem CmpOp.leaf_all {L : CmpOp → String → Value → Prop} :
    (op.leaf column v).All L ↔ L op column v := by
  cases op <;> rfl

@[simp] theorem CmpOp.leaf_eval {leaf : CmpOp → String → Value → Option Bool} :
    (op.leaf column v).eval leaf = leaf op column v := by
  cases op <;> rfl

@[simp] theorem CmpOp.leaf_shouldScanFile :
    shouldScanFile stats (op.leaf column v) = leafScan stats op column v := by
  cases op <;> rfl

/-- A tree that is true passes if every leaf that is true does. -/
theorem shouldScanFile_of_eval {leaf : CmpOp → String → Value → Option Bool}
    (h : p.All fun op c v => leaf op c v = some true → leafScan stats op c v = true)
    (heval : p.eval leaf = some true) : shouldScanFile stats p = true := by
  induction p with
  | and l r ihl ihr =>
    obtain ⟨hl, hr⟩ := Kleene.and_eq_true.mp heval
    rw [shouldScanFile, ihl h.1 hl, ihr h.2 hr]
    rfl
  | or l r ihl ihr =>
    rw [shouldScanFile, Bool.or_eq_true]
    exact (Kleene.or_eq_true.mp heval).imp (ihl h.1) (ihr h.2)
  | _ => exact h heval

/-- No field of this name holds floats. -/
def LeafNotFloat (schema : Schema) (_op : CmpOp) (column : String) (_v : Value) : Prop :=
  ∀ f ∈ schema.fields, f.name = column → valueType f.dataType ≠ .float64

theorem indexOf_eq_some {name : String} {i : ℕ} (h : schema.indexOf name = some i) :
    ∃ f, schema.fields[i]? = some f ∧ f.name = name ∧ schema.typeAt i = f.dataType := by
  obtain ⟨hlt, hname, -⟩ := List.findIdx?_eq_some_iff_getElem.mp h
  refine ⟨_, List.getElem?_eq_getElem hlt, by simpa using hname, ?_⟩
  rw [Schema.typeAt, List.getElem?_eq_getElem hlt]

theorem LeafTyped.literalType_ne (h : LeafTyped schema op column v)
    (hnot : LeafNotFloat schema op column v) : literalType v ≠ .float64 := by
  obtain ⟨i, hi, htype⟩ := h
  obtain ⟨f, hf, hname, hat⟩ := indexOf_eq_some hi
  rw [← htype, hat]
  exact hnot f (List.mem_of_getElem? hf) hname

/-- Statistics of a batch of integers and strings never rule out a row that its
mask selects. -/
theorem mask_of_pruned {slots : Slots} {batch : RecordBatch} {m : List (Option Bool)}
    (hn : (batch.schema.fields.map Field.name).Nodup)
    (hcol : p.All (LeafNotFloat batch.schema))
    (hprune : shouldScanFile (computeStats slots batch) p = false) (hm : mask batch p = .ok m) :
    ∀ b ∈ m, b ≠ some true := by
  obtain ⟨htyped, rfl⟩ := mask_eq_ok.mp hm
  rintro _ hb rfl
  obtain ⟨r, hr, heval⟩ := List.mem_map.mp hb
  have hscan : shouldScanFile (computeStats slots batch) p = true := by
    refine shouldScanFile_of_eval ((htyped.and hcol).imp ?_) heval
    rintro op c v ⟨htyped, hcol⟩ hleaf
    have hlit := htyped.literalType_ne hcol
    obtain ⟨i, hi, htype⟩ := htyped
    obtain ⟨f, hf, hname, hat⟩ := indexOf_eq_some hi
    rw [rowLeaf, hi] at hleaf
    obtain ⟨x, hx⟩ := exists_value_of_cell hleaf
    refine leafScan_of_covers (fun s hs => ?_) (agrees_of_not_float hlit hleaf x hx)
    rw [← hname, lookup_computeStats hn hf] at hs
    have hfloat : f.dataType ≠ .float64 := by
      intro heq
      exact hcol f (List.mem_of_getElem? hf) hname (by rw [heq]; rfl)
    refine columnStats_covers hs (by simp [floats_of_not_float64 hfloat hs])
      (List.mem_map.mpr ⟨r, hr, rfl⟩) (Field.accepts_cases (accepts_cell (batch.fits r hr) hf)) hx
  rw [hscan] at hprune
  cases hprune

end StrataDB.Query
