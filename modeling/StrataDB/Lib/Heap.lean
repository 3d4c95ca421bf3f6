import Mathlib.Data.List.Perm.Basic
import Mathlib.Order.Lattice
import Mathlib.Tactic.TypeStar

/-! Priority queues, up to the order in which they give their elements back. An
element that has been pushed is in the queue until it is popped, each one as often
as it was pushed; which of the elements `peek` and `pop` take is left to the
implementation. -/

namespace StrataDB.Lib

/-- An implementation of a priority queue. `toList` is its order of iteration. -/
structure Heap (α : Type) where
  Queue : Type
  empty : Queue
  push : Queue → α → Queue
  pop : Queue → Option (α × Queue)
  toList : Queue → List α
  toList_empty : toList empty = []
  toList_push : ∀ q a, (toList (push q a)).Perm (a :: toList q)
  pop_eq_none : ∀ q, pop q = none → toList q = []
  toList_pop : ∀ q a q', pop q = some (a, q') → (toList q).Perm (a :: toList q')

namespace Heap

variable {α : Type} (H : Heap α)

/-- The element that `pop` would take. -/
def peek (q : H.Queue) : Option α := (H.pop q).map Prod.fst

def length (q : H.Queue) : ℕ := (H.toList q).length

/-- The queue without the element that `pop` takes. -/
def dropTop (q : H.Queue) : H.Queue := (H.pop q).elim q Prod.snd

variable {H}

variable (q : H.Queue) {a : α} {le : α → α → Prop}

@[simp] theorem length_push (a : α) : H.length (H.push q a) = H.length q + 1 := by
  simpa [length] using (H.toList_push q a).length_eq

theorem mem_push {q : H.Queue} {b : α} : b ∈ H.toList (H.push q a) ↔ b = a ∨ b ∈ H.toList q := by
  rw [(H.toList_push q a).mem_iff, List.mem_cons]

theorem toList_eq_nil_of_peek {q : H.Queue} (h : H.peek q = none) : H.toList q = [] :=
  H.pop_eq_none q (Option.map_eq_none_iff.mp h)

/-- What is left after `pop` was there before, one element less. -/
theorem toList_dropTop (hne : H.toList q ≠ []) :
    ∃ a, (H.toList q).Perm (a :: H.toList (H.dropTop q)) := by
  cases hpop : H.pop q with
  | none => exact absurd (H.pop_eq_none q hpop) hne
  | some p =>
    refine ⟨p.1, ?_⟩
    rw [dropTop, hpop]
    exact H.toList_pop q p.1 p.2 hpop

variable (H) in
/-- `pop` takes an element to which all the others are related. -/
def TakesGreatest (le : α → α → Prop) : Prop :=
  ∀ q a q', H.pop q = some (a, q') → ∀ b ∈ H.toList q, le b a

theorem TakesGreatest.peek (h : H.TakesGreatest le) {q : H.Queue} (hpeek : H.peek q = some a) :
    a ∈ H.toList q ∧ ∀ b ∈ H.toList q, le b a := by
  obtain ⟨⟨a', q'⟩, hpop, rfl⟩ := Option.map_eq_some_iff.mp hpeek
  exact ⟨(H.toList_pop _ _ _ hpop).mem_iff.mpr List.mem_cons_self, h _ _ _ hpop⟩

theorem TakesGreatest.dropTop (h : H.TakesGreatest le) (q : H.Queue) (hne : H.toList q ≠ []) :
    ∃ a, (H.toList q).Perm (a :: H.toList (H.dropTop q)) ∧ ∀ b ∈ H.toList q, le b a := by
  cases hpop : H.pop q with
  | none => exact absurd (H.pop_eq_none q hpop) hne
  | some p =>
    refine ⟨p.1, ?_, h q p.1 p.2 hpop⟩
    rw [Heap.dropTop, hpop]
    exact H.toList_pop q p.1 p.2 hpop

end Heap

/-- A list out of which the first element is taken that no other one precedes. -/
def listHeap {α : Type} [DecidableEq α] (before : α → α → Bool) : Heap α where
  Queue := List α
  empty := []
  push q a := q ++ [a]
  pop
    | [] => none
    | a :: q =>
      let top := q.foldl (fun top b => if before b top then b else top) a
      some (if top ∈ a :: q then (top, (a :: q).erase top) else (a, q))
  toList q := q
  toList_empty := rfl
  toList_push q a := List.perm_append_singleton a q
  pop_eq_none q h := by
    cases q with
    | nil => rfl
    | cons a q => cases h
  toList_pop q a q' h := by
    cases q with
    | nil => cases h
    | cons b q =>
      dsimp only at h
      split_ifs at h with hmem
      · cases h
        exact List.perm_cons_erase hmem
      · cases h
        exact List.Perm.refl _

theorem listHeap_takesGreatest {α ρ : Type} [DecidableEq α] [LinearOrder ρ] (rank : α → ρ) :
    (listHeap fun a b => decide (rank b < rank a)).TakesGreatest fun b a => rank b ≤ rank a := by
  -- the fold ends at an element of the list, or at its start, that ranks highest
  have htop : ∀ (q : List α) (a : α),
      q.foldl (fun top b => if decide (rank top < rank b) then b else top) a ∈ a :: q ∧
        ∀ b ∈ a :: q,
          rank b ≤
            rank (q.foldl (fun top b => if decide (rank top < rank b) then b else top) a) := by
    intro q
    induction q with
    | nil => exact fun a => ⟨List.mem_cons_self, fun b hb => by rw [List.mem_singleton.mp hb]; rfl⟩
    | cons c q ih =>
      intro a
      rw [List.foldl_cons]
      split_ifs with hlt
      · obtain ⟨hmem, hle⟩ := ih c
        refine ⟨List.mem_cons_of_mem _ hmem, fun b hb => ?_⟩
        rcases List.mem_cons.mp hb with rfl | hb
        · exact le_trans (le_of_lt (of_decide_eq_true hlt)) (hle c List.mem_cons_self)
        · exact hle b hb
      · obtain ⟨hmem, hle⟩ := ih a
        have hca : rank c ≤ rank a := not_lt.mp (by simpa using hlt)
        constructor
        · rcases List.mem_cons.mp hmem with heq | hmem
          · rw [heq]
            exact List.mem_cons_self
          · exact List.mem_cons_of_mem _ (List.mem_cons_of_mem _ hmem)
        · intro b hb
          rcases List.mem_cons.mp hb with rfl | hb
          · exact hle b List.mem_cons_self
          · rcases List.mem_cons.mp hb with rfl | hb
            · exact le_trans hca (hle a List.mem_cons_self)
            · exact hle b (List.mem_cons_of_mem _ hb)
  intro q a q' hpop b hb
  cases q with
  | nil => cases hpop
  | cons c q =>
    obtain ⟨hmem, hle⟩ := htop q c
    dsimp only [listHeap] at hpop
    rw [if_pos hmem] at hpop
    cases hpop
    exact hle b hb

end StrataDB.Lib
