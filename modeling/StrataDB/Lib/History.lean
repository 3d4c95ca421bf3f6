import Mathlib.Data.List.DropRight
import Mathlib.Data.Set.Lattice
import Mathlib.Order.CompletePartialOrder

/-! Histories. A bounded one is a queue that drops its oldest element when it is full;
what it holds is always the last part of everything ever pushed. A sequence of sets from
which elements are removed and to which only new elements are added loses an element for
good, so that none is removed twice. -/

namespace StrataDB.Lib

section

variable {α : Type*}

/-- Append `x`, dropping the front first when `capacity` elements are held. -/
def ringPush (capacity : ℕ) (q : List α) (x : α) : List α :=
  (if capacity ≤ q.length then q.tail else q) ++ [x]

/-- Pushing commutes with keeping the last `capacity` elements. -/
theorem ringPush_rtake {capacity : ℕ} (hc : 0 < capacity) (history : List α) (x : α) :
    ringPush capacity (history.rtake capacity) x = (history ++ [x]).rtake capacity := by
  simp only [List.rtake, ringPush, List.length_drop, List.length_append, List.length_singleton]
  by_cases h : capacity ≤ history.length
  · rw [if_pos (by omega), List.tail_drop,
      show history.length + 1 - capacity = history.length - capacity + 1 by omega,
      List.drop_append_of_le_length (by omega)]
  · rw [if_neg (by omega), show history.length - capacity = 0 by omega,
      show history.length + 1 - capacity = 0 by omega, List.drop_zero, List.drop_zero]

end

variable {α : Type*} {live owned removed : ℕ → Set α} {n : ℕ}

/-- The first `n` stages. An element that enters the live set was never owned
before. -/
structure Flow (live owned removed : ℕ → Set α) (n : ℕ) : Prop where
  live_subset : ∀ i < n, live i ⊆ owned i
  removed_subset : ∀ i, i + 1 < n → removed (i + 1) ⊆ live i
  enters : ∀ i, i + 1 < n → ∀ x ∈ live (i + 1),
    (x ∈ live i ∧ x ∉ removed (i + 1)) ∨ ∀ j ≤ i, x ∉ owned j

namespace Flow

variable {i j : ℕ} {x : α}

/-- Once owned and not live, an element stays so. -/
theorem not_live (h : Flow live owned removed n) (hij : i ≤ j) (hj : j < n)
    (howned : ∃ k ≤ i, x ∈ owned k) (hx : x ∉ live i) : x ∉ live j := by
  induction j, hij using Nat.le_induction with
  | base => exact hx
  | succ j hij ih =>
    intro hlive
    obtain ⟨k, hk, hown⟩ := howned
    rcases h.enters j hj x hlive with ⟨hlive', _⟩ | hnew
    · exact ih (by omega) hlive'
    · exact hnew k (by omega) hown

/-- What a stage removed is gone from then on. -/
theorem removed_not_live (h : Flow live owned removed n) (hij : i + 1 ≤ j) (hj : j < n)
    (hx : x ∈ removed (i + 1)) : x ∉ live j := by
  have hlive := h.removed_subset i (by omega) hx
  have howned : x ∈ owned i := h.live_subset i (by omega) hlive
  refine h.not_live hij hj ⟨i, by omega, howned⟩ fun hlive' => ?_
  rcases h.enters i (by omega) x hlive' with ⟨_, hnot⟩ | hnew
  · exact hnot hx
  · exact hnew i le_rfl howned

/-- No element is removed twice. -/
theorem removed_disjoint (h : Flow live owned removed n) (hi : 0 < i) (hij : i < j) (hj : j < n) :
    Disjoint (removed i) (removed j) := by
  obtain ⟨i, rfl⟩ := Nat.exists_eq_succ_of_ne_zero hi.ne'
  obtain ⟨j, rfl⟩ := Nat.exists_eq_succ_of_ne_zero (by omega : j ≠ 0)
  refine Set.disjoint_left.mpr fun x hx hx' => ?_
  exact h.removed_not_live (by omega) (by omega : j < n) hx (h.removed_subset j hj hx')

end Flow

end StrataDB.Lib
