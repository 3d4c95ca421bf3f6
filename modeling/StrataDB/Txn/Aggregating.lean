import Mathlib.Algebra.BigOperators.Group.List.Basic
import StrataDB.Txn.GroupBy

/-! Integer aggregates are exact. What a count, an integer sum, minimum or maximum
holds is a function of the values it has seen; the checked additions on the way fail
exactly when a running sum leaves `i64`. Merging the states of blocks gives the state
of the whole. -/

namespace StrataDB.Txn

open Lib Arrow Index Storage

/-! ### Values -/

/-- The integers among the values. -/
def intsOf (values : List ResultValue) : List ℤ :=
  values.filterMap fun
    | .int64 v => some v
    | _ => none

variable (vs ws : List ResultValue)

@[simp] theorem intsOf_append : intsOf (vs ++ ws) = intsOf vs ++ intsOf ws := List.filterMap_append

@[simp] theorem intsOf_null : intsOf [.null] = [] := rfl

@[simp] theorem intsOf_int64 (z : ℤ) : intsOf [.int64 z] = [z] := rfl

/-- The number of values that are not null. -/
def nonNull (values : List ResultValue) : ℕ := values.countP (· ≠ .null)

@[simp] theorem nonNull_append : nonNull (vs ++ ws) = nonNull vs + nonNull ws := List.countP_append

theorem nonNull_le : nonNull vs ≤ vs.length := List.countP_le_length

theorem nonNull_singleton (v : ResultValue) : nonNull [v] = if v = .null then 0 else 1 := by
  by_cases h : v = .null <;> simp [nonNull, h]

/-- All integers combined from left to right. -/
def reduce (f : ℤ → ℤ → ℤ) : List ℤ → Option ℤ
  | [] => none
  | x :: xs => some (xs.foldl f x)

variable (f : ℤ → ℤ → ℤ) (xs : List ℤ)

theorem reduce_concat (x : ℤ) : reduce f (xs ++ [x]) = combine f (reduce f xs) (some x) := by
  cases xs with
  | nil => rfl
  | cons y xs => simp [reduce, combine]

theorem combine_assoc {f : ℤ → ℤ → ℤ} (hf : ∀ a b c, f (f a b) c = f a (f b c))
    (a b c : Option ℤ) : combine f (combine f a b) c = combine f a (combine f b c) := by
  cases a <;> cases b <;> cases c <;> simp [combine, hf]

theorem combine_none (a : Option ℤ) : combine f a none = a := by
  cases a <;> rfl

theorem reduce_append {f : ℤ → ℤ → ℤ} (hf : ∀ a b c, f (f a b) c = f a (f b c))
    (xs ys : List ℤ) : reduce f (xs ++ ys) = combine f (reduce f xs) (reduce f ys) := by
  induction ys using List.reverseRecOn with
  | nil => rw [List.append_nil, reduce, combine_none]
  | append_singleton ys y ih =>
    rw [← List.append_assoc, reduce_concat, ih, reduce_concat, combine_assoc hf]

theorem reduce_add : reduce (· + ·) xs = if xs = [] then none else some xs.sum := by
  cases xs with
  | nil => rfl
  | cons x xs => simp [reduce, List.sum_eq_foldl]

theorem reduce_min : reduce min xs = xs.min? := by cases xs <;> rfl

theorem reduce_max : reduce max xs = xs.max? := by cases xs <;> rfl

namespace AggregateState

/-- What a state of the kind of `t` holds after these values. -/
def exact (t : AggregateState) (values : List ResultValue) : AggregateState :=
  match t with
  | .count _ => .count (nonNull values)
  | .int64Sum _ => .int64Sum (reduce (· + ·) (intsOf values))
  | .int64Minimum _ => .int64Minimum (reduce min (intsOf values))
  | .int64Maximum _ => .int64Maximum (reduce max (intsOf values))
  | t => t

/-- A fresh count or integer aggregate. -/
def IsExact (t : AggregateState) : Prop :=
  t = .count 0 ∨ t = .int64Sum none ∨ t = .int64Minimum none ∨ t = .int64Maximum none

/-- The values an aggregate takes: anything for a count, else null or an `i64`. -/
def Takes (t : AggregateState) (value : ResultValue) : Prop :=
  match t with
  | .count _ => True
  | _ => value = .null ∨ ∃ z, value = .int64 z ∧ FitsInt64 z

/-- The error if the aggregate is a sum and that of the values does not fit. -/
def overflow (t : AggregateState) (aliasName : String) (values : List ResultValue) :
    Option QueryError :=
  match t with
  | .int64Sum _ =>
    if FitsInt64 (intsOf values).sum then none
    else some (.execution (.int64SumOverflow aliasName))
  | _ => none

variable {F : FloatOps} {aliasName : String} {t : AggregateState}

theorem fitsInt64_zero : FitsInt64 0 := by decide

theorem IsExact.exact_nil (h : IsExact t) : t.exact [] = t := by
  rcases h with rfl | rfl | rfl | rfl <;> rfl

theorem overflow_nil (t : AggregateState) (aliasName : String) :
    t.overflow aliasName [] = none := by
  cases t <;> rfl

theorem overflow_eq_none {sum : Option ℤ} {values : List ResultValue} :
    (int64Sum sum).overflow aliasName values = none ↔ FitsInt64 (intsOf values).sum := by
  simp [overflow]

theorem checkedSum_reduce {xs ys : List ℤ} (hx : FitsInt64 xs.sum) (hy : FitsInt64 ys.sum) :
    checkedSum aliasName (reduce (· + ·) xs) (reduce (· + ·) ys) =
      report (if FitsInt64 (xs ++ ys).sum then none
        else some (.execution (.int64SumOverflow aliasName))) (reduce (· + ·) (xs ++ ys)) := by
  rw [reduce_append fun a b c => add_assoc a b c, reduce_add, reduce_add, List.sum_append]
  by_cases hxs : xs = []
  · subst hxs
    simp [checkedSum, report, hy]
  · by_cases hys : ys = []
    · subst hys
      simp [checkedSum, report, hx, hxs]
    · by_cases hfits : FitsInt64 (xs.sum + ys.sum) <;>
        simp [checkedSum, report, combine, hxs, hys, hfits]

variable {vs : List ResultValue} {v : ResultValue}

theorem merge_exact (ht : IsExact t) {ws : List ResultValue} (hv : t.overflow aliasName vs = none)
    (hw : t.overflow aliasName ws = none) (hlen : vs.length + ws.length < u64Bound) :
    merge F aliasName (t.exact vs) (t.exact ws) =
      report (t.overflow aliasName (vs ++ ws)) (t.exact (vs ++ ws)) := by
  rcases ht with rfl | rfl | rfl | rfl
  · have hcount : nonNull vs + nonNull ws < u64Bound := by
      have := nonNull_le vs
      have := nonNull_le ws
      omega
    simp only [exact, merge, checkedCount, if_pos hcount, nonNull_append]
    rfl
  · simp only [exact, merge, overflow, intsOf_append,
      checkedSum_reduce (overflow_eq_none.mp hv) (overflow_eq_none.mp hw)]
    exact map_report int64Sum
  · simp only [exact, merge, intsOf_append, reduce_append fun a b c => min_assoc a b c]
    rfl
  · simp only [exact, merge, intsOf_append, reduce_append fun a b c => max_assoc a b c]
    rfl

/-- One more value is one more block. -/
theorem update_eq_merge (ht : IsExact t) (hv : t.Takes v) (hlen : vs.length + 1 < u64Bound) :
    update F aliasName (t.exact vs) v = merge F aliasName (t.exact vs) (t.exact [v]) := by
  have hlt : nonNull vs + nonNull [v] < u64Bound := by
    have := nonNull_le vs
    have := nonNull_le [v]
    simp only [List.length_singleton] at this
    omega
  have hcount := nonNull_singleton v
  by_cases hnull : v = .null
  · subst hnull
    rw [if_pos rfl] at hcount
    rw [hcount] at hlt
    rcases ht with rfl | rfl | rfl | rfl
    · simp only [update, exact, merge, checkedCount, hcount, if_pos hlt, if_true]
      rfl
    · simp [update, exact, merge, checkedSum, reduce, combine_none, pure, Except.pure]
    · simp [update, exact, merge, reduce, combine_none]
    · simp [update, exact, merge, reduce, combine_none]
  · rw [if_neg hnull] at hcount
    rw [hcount] at hlt
    rcases ht with rfl | rfl | rfl | rfl
    · simp only [update, exact, merge, checkedCount, hcount, if_pos hlt, if_neg hnull,
        Nat.mod_eq_of_lt hlt]
      rfl
    all_goals
      obtain ⟨z, rfl, -⟩ := hv.resolve_left hnull
      simp [update, exact, merge, int64Value, reduce, pure, Except.pure]

theorem overflow_singleton (ht : IsExact t) (hv : t.Takes v) :
    t.overflow aliasName [v] = none := by
  rcases ht with rfl | rfl | rfl | rfl
  · rfl
  · rw [overflow_eq_none]
    rcases hv with rfl | ⟨z, rfl, hz⟩
    · exact fitsInt64_zero
    · simpa using hz
  · rfl
  · rfl

theorem update_exact (ht : IsExact t) (hfit : t.overflow aliasName vs = none) (hv : t.Takes v)
    (hlen : vs.length + 1 < u64Bound) :
    update F aliasName (t.exact vs) v =
      report (t.overflow aliasName (vs ++ [v])) (t.exact (vs ++ [v])) := by
  rw [update_eq_merge ht hv hlen]
  exact merge_exact ht hfit (overflow_singleton ht hv) hlen

end AggregateState

end StrataDB.Txn
