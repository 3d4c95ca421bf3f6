import Mathlib.Algebra.BigOperators.Group.Finset.Basic
import Mathlib.Algebra.Order.BigOperators.Group.Finset
import Mathlib.Data.Fintype.Basic
import Mathlib.Logic.Relation

/-! Transition systems whose steps are computed: a label either leads from a
state to one next state or is not enabled there. Invariants are proved once
from one step lemma (`Reachable.invariant`), and a property that only survives
some steps is proved over the runs restricted to those (`restrict`). -/

namespace StrataDB.Lib

/-- States `σ`, labels `ι`; `step s a = none` says that `a` is not enabled. -/
structure TransitionSystem (σ ι : Type*) where
  init : σ → Prop
  step : σ → ι → Option σ

namespace TransitionSystem

variable {σ ι : Type*} (T : TransitionSystem σ ι)

/-- Some finite run leads from an initial state to this one. -/
inductive Reachable : σ → Prop
  | init {s : σ} : T.init s → Reachable s
  | step {s s' : σ} {a : ι} : Reachable s → T.step s a = some s' → Reachable s'

/-- The labels of a run, in order. -/
def run : σ → List ι → Option σ
  | s, [] => some s
  | s, a :: as => (T.step s a).bind fun s' => run s' as

variable {T}

theorem run_append (s : σ) (as bs : List ι) :
    T.run s (as ++ bs) = (T.run s as).bind fun s' => T.run s' bs := by
  induction as generalizing s with
  | nil => rfl
  | cons a as ih =>
    rw [List.cons_append, run, run, Option.bind_assoc]
    exact congrArg _ (funext ih)

/-- What holds initially and survives every step holds in every reachable
state. The step may use that its source is reachable. -/
theorem Reachable.invariant {p : σ → Prop} (hinit : ∀ s, T.init s → p s)
    (hstep : ∀ s a s', T.Reachable s → p s → T.step s a = some s' → p s')
    {s : σ} (h : T.Reachable s) : p s := by
  induction h with
  | init h0 => exact hinit _ h0
  | step hs ha ih => exact hstep _ _ _ hs ih ha

variable {s' : σ} {as : List ι}

theorem Reachable.run {s : σ} (h : T.Reachable s) (hr : T.run s as = some s') : T.Reachable s' := by
  induction as generalizing s with
  | nil =>
    cases hr
    exact h
  | cons a as ih =>
    obtain ⟨s₁, h₁, h₂⟩ := Option.bind_eq_some_iff.mp hr
    exact ih (h.step h₁) h₂

variable (T)

/-- The same system with only the steps that satisfy `ok` in their source state. -/
def restrict (ok : σ → ι → Prop) [∀ s a, Decidable (ok s a)] : TransitionSystem σ ι where
  init := T.init
  step s a := if ok s a then T.step s a else none

variable {T} {ok : σ → ι → Prop} [∀ s a, Decidable (ok s a)]

theorem restrict_step {s : σ} {a : ι} :
    (T.restrict ok).step s a = some s' ↔ ok s a ∧ T.step s a = some s' := by
  unfold restrict
  dsimp only
  split <;> simp_all

theorem Reachable.of_restrict {s : σ} (h : (T.restrict ok).Reachable s) : T.Reachable s := by
  induction h with
  | init h0 => exact .init h0
  | step _ ha ih => exact ih.step (restrict_step.mp ha).2

/-- A run all of whose labels are allowed in every state. -/
theorem Reachable.restrict_run {s : σ} (h : (T.restrict ok).Reachable s)
    (hok : ∀ a ∈ as, ∀ t, ok t a) (hr : T.run s as = some s') : (T.restrict ok).Reachable s' := by
  induction as generalizing s with
  | nil =>
    cases hr
    exact h
  | cons a as ih =>
    rw [List.forall_mem_cons] at hok
    obtain ⟨s₁, h₁, h₂⟩ := Option.bind_eq_some_iff.mp hr
    exact ih (h.step (restrict_step.mpr ⟨hok.1 s, h₁⟩)) hok.2 h₂

end TransitionSystem

/-! ### Threads

Finitely many threads, each with a local state: what a quantity summed over them becomes
when one of them takes a step. -/

section

variable {ι σ : Type*} [Fintype ι]

variable (f : σ → ℕ) (threads : ι → σ) (i : ι)

theorem sum_update_add [DecidableEq ι] (t : σ) :
    ∑ j, f (Function.update threads i t j) + f (threads i) = ∑ j, f (threads j) + f t := by
  have hrest : ∀ threads' : ι → σ, ∑ j, f (threads' j) =
      f (threads' i) + ∑ j ∈ Finset.univ.erase i, f (threads' j) := fun threads' =>
    (Finset.add_sum_erase _ (fun j => f (threads' j)) (Finset.mem_univ i)).symm
  have hsame : ∑ j ∈ Finset.univ.erase i, f (Function.update threads i t j) =
      ∑ j ∈ Finset.univ.erase i, f (threads j) :=
    Finset.sum_congr rfl fun j hj => by
      rw [Function.update_of_ne (Finset.ne_of_mem_erase hj)]
  rw [hrest, hrest threads, hsame, Function.update_self]
  omega

theorem le_sum_threads : f (threads i) ≤ ∑ j, f (threads j) :=
  Finset.single_le_sum (f := fun j => f (threads j)) (fun _ _ => Nat.zero_le _)
    (Finset.mem_univ i)

end

end StrataDB.Lib
