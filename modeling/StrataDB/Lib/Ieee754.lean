import Mathlib.Order.Basic
import Mathlib.Order.Defs.LinearOrder
import Mathlib.Tactic.Linarith

/-! Binary interchange formats at the level a comparison sees: a sign and a
magnitude whose order is the order of the absolute values, the magnitudes above
the one of infinity being the NaNs. The two comparisons in use are the numeric
one, where NaN compares with nothing and the zeros are equal, and the total
order on bit patterns, where negative NaNs come first and positive ones last. -/

namespace StrataDB.Lib

/-- A format with `e` exponent bits and `m` fraction bits. The magnitude is the
bit pattern without its sign. -/
structure Binary (e m : ℕ) where
  negative : Bool
  magnitude : ℕ
  fits : magnitude < 2 ^ (e + m)
  deriving DecidableEq

namespace Binary

variable {e m : ℕ}

/-- The magnitude of infinity: all exponent bits set, no fraction bit. -/
def infinity (e m : ℕ) : ℕ := (2 ^ e - 1) * 2 ^ m

def isNaN (x : Binary e m) : Bool := infinity e m < x.magnitude

def isFinite (x : Binary e m) : Bool := x.magnitude < infinity e m

/-- Position in the total order on bit patterns. -/
def totalKey (x : Binary e m) : ℤ :=
  if x.negative then -(x.magnitude : ℤ) - 1 else x.magnitude

/-- Position in the numeric order; the two zeros share one. -/
def numericKey (x : Binary e m) : ℤ :=
  if x.negative then -(x.magnitude : ℤ) else x.magnitude

/-- The bit pattern. -/
def toBits (x : Binary e m) : ℕ := (if x.negative then 2 ^ (e + m) else 0) + x.magnitude

/-- The value with these bits; those above the format are dropped. -/
def ofBits (bits : ℕ) : Binary e m where
  negative := decide (bits / 2 ^ (e + m) % 2 = 1)
  magnitude := bits % 2 ^ (e + m)
  fits := Nat.mod_lt _ (Nat.two_pow_pos _)

/-- Numeric `<`, false as soon as one side is NaN. -/
def lt (x y : Binary e m) : Bool :=
  !x.isNaN && !y.isNaN && decide (x.numericKey < y.numericKey)

/-- Numeric `≤`, false as soon as one side is NaN. -/
def le (x y : Binary e m) : Bool :=
  !x.isNaN && !y.isNaN && decide (x.numericKey ≤ y.numericKey)

/-- Numeric `=`, false as soon as one side is NaN. -/
def eq (x y : Binary e m) : Bool :=
  !x.isNaN && !y.isNaN && decide (x.numericKey = y.numericKey)

theorem toBits_injective : Function.Injective (toBits : Binary e m → ℕ) := by
  rintro ⟨sx, mx, hx⟩ ⟨sy, my, hy⟩ h
  cases sx <;> cases sy <;> simp [toBits] at h ⊢ <;> omega

variable {x : Binary e m}

/-- The total order refines the numeric one. -/
theorem numericKey_le_of_totalKey_le {y : Binary e m} (h : x.totalKey ≤ y.totalKey) :
    x.numericKey ≤ y.numericKey := by
  unfold totalKey at h
  unfold numericKey
  split <;> split <;> simp_all
  omega

theorem isNaN_eq_false_of_isFinite (h : x.isFinite) : x.isNaN = false := by
  simp only [isFinite, decide_eq_true_eq] at h
  simp only [isNaN, decide_eq_false_iff_not]
  omega

/-! ### Classes by position -/

theorem isFinite_iff_totalKey : x.isFinite = true ↔
    -(infinity e m : ℤ) - 1 < x.totalKey ∧ x.totalKey < infinity e m := by
  simp only [isFinite, totalKey, decide_eq_true_eq]
  split <;> omega

theorem isFinite_iff_numericKey : x.isFinite = true ↔
    -(infinity e m : ℤ) < x.numericKey ∧ x.numericKey < infinity e m := by
  simp only [isFinite, numericKey, decide_eq_true_eq]
  split <;> omega

theorem isNaN_iff_totalKey : x.isNaN = true ↔
    x.totalKey < -(infinity e m : ℤ) - 1 ∨ infinity e m < x.totalKey := by
  simp only [isNaN, totalKey, decide_eq_true_eq]
  split <;> omega

theorem negative_iff_totalKey : x.negative = true ↔ x.totalKey < 0 := by
  unfold totalKey
  cases x.negative <;> simp
  omega

/-- The pattern of positive zero. -/
def zero (e m : ℕ) : Binary e m := ⟨false, 0, Nat.two_pow_pos _⟩

end Binary

end StrataDB.Lib
