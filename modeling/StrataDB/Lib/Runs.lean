import Mathlib.Data.List.Chain
import Mathlib.Data.List.Forall2

/-! Lists cut into maximal runs of consecutive numbers. -/

namespace StrataDB.Lib

variable {α : Type*}

/-- `groups` is `xs` cut where the number of an element does not follow that of
the element before it. -/
structure MaximalRuns (f : α → ℕ) (xs : List α) (groups : List (List α)) : Prop where
  flatten : groups.flatten = xs
  consecutive : ∀ g ∈ groups, g ≠ [] ∧ ∃ first, g.map f = List.range' first g.length
  maximal : groups.IsChain fun g h => ∀ a ∈ g.getLast?, ∀ b ∈ h.head?, f b ≠ f a + 1

theorem MaximalRuns.nil (f : α → ℕ) : MaximalRuns f ([] : List α) [] := ⟨rfl, by simp, .nil⟩

variable {f : α → ℕ} {xs g : List α} {groups : List (List α)} {first : ℕ}

theorem MaximalRuns.ne_nil (h : MaximalRuns f xs groups) (hg : g ∈ groups) : xs ≠ [] := by
  rintro rfl
  exact (h.consecutive g hg).1 (List.flatten_eq_nil_iff.mp h.flatten g hg)

theorem MaximalRuns.single (hne : g ≠ []) (hg : g.map f = List.range' first g.length) :
    MaximalRuns f g [g] :=
  ⟨by simp, by simpa using ⟨hne, first, hg⟩, .singleton _⟩

theorem MaximalRuns.cons {f : α → ℕ} {g h : List α} {xs : List α} {groups : List (List α)}
    {first : ℕ} (hne : g ≠ []) (hg : g.map f = List.range' first g.length)
    (hrest : MaximalRuns f xs (h :: groups))
    (hcut : ∀ a ∈ g.getLast?, ∀ b ∈ h.head?, f b ≠ f a + 1) :
    MaximalRuns f (g ++ xs) (g :: h :: groups) := by
  refine ⟨by rw [List.flatten_cons, hrest.flatten], ?_, .cons_cons hcut hrest.maximal⟩
  exact List.forall_mem_cons.mpr ⟨⟨hne, first, hg⟩, hrest.consecutive⟩

theorem MaximalRuns.tail (h : MaximalRuns f xs (g :: groups)) :
    MaximalRuns f groups.flatten groups :=
  ⟨rfl, fun g' hg' => h.consecutive g' (List.mem_cons_of_mem _ hg'), h.maximal.tail⟩

theorem MaximalRuns.cut {more rest : List α} (h : MaximalRuns f xs (g :: groups))
    (hrest : groups.flatten = more ++ rest)
    (hmore : (g ++ more).map f = List.range' first (g ++ more).length) : more = [] := by
  cases more with
  | nil => rfl
  | cons x more =>
    cases groups with
    | nil => cases hrest
    | cons g' groups =>
      exfalso
      have hne' := (h.consecutive g' (by simp)).1
      have hhead : x ∈ g'.head? := by
        have := congrArg List.head? hrest
        rwa [List.flatten_cons, List.head?_append_of_ne_nil _ hne', List.cons_append,
          List.head?_cons] at this
      obtain ⟨hne, _⟩ := h.consecutive g List.mem_cons_self
      obtain ⟨before, a, rfl⟩ := List.eq_nil_or_concat g |>.resolve_left hne
      rw [List.concat_eq_append] at hmore h
      refine (List.isChain_cons_cons.mp h.maximal).1 a (by simp) x hhead ?_
      have hget : ∀ i y, (before ++ [a] ++ x :: more)[i]? = some y → f y = first + i := by
        intro i y hy
        have hi := (List.getElem?_eq_some_iff.mp hy).1
        have := congrArg (fun l : List ℕ => l[i]?) hmore
        rw [List.getElem?_map, hy, List.getElem?_range' hi, Option.map_some, Nat.one_mul] at this
        exact Option.some.inj this
      rw [hget before.length a (by simp), hget (before.length + 1) x (by simp)]
      omega

/-- There is one way to cut a list into maximal runs. -/
theorem MaximalRuns.unique {groups' : List (List α)} (h : MaximalRuns f xs groups)
    (h' : MaximalRuns f xs groups') : groups = groups' := by
  induction groups generalizing xs groups' with
  | nil =>
    refine (List.eq_nil_iff_forall_not_mem.mpr fun g hg => ?_).symm
    exact h'.ne_nil hg h.flatten.symm
  | cons g groups ih =>
    cases groups' with
    | nil => exact absurd h'.flatten.symm (h.ne_nil List.mem_cons_self)
    | cons g' groups' =>
      have hsame : g ++ groups.flatten = g' ++ groups'.flatten := h.flatten.trans h'.flatten.symm
      have hg : g = g' ∧ groups.flatten = groups'.flatten := by
        rcases List.append_eq_append_iff.mp hsame with ⟨more, hg', hrest⟩ | ⟨more, hg, hrest⟩
        · obtain ⟨_, _, hids⟩ := h'.consecutive g' List.mem_cons_self
          subst hg'
          obtain rfl := h.cut hrest hids
          exact ⟨(List.append_nil g).symm, hrest⟩
        · obtain ⟨_, _, hids⟩ := h.consecutive g List.mem_cons_self
          subst hg
          obtain rfl := h'.cut hrest hids
          exact ⟨List.append_nil g', hrest.symm⟩
      rw [hg.1, ih h.tail (by rw [hg.2]; exact h'.tail)]

/-- One more element that continues a run. -/
theorem map_append_range' {x : α} (hg : g.map f = List.range' first g.length)
    (hx : f x = first + g.length) : (g ++ [x]).map f = List.range' first (g ++ [x]).length := by
  rw [List.map_append, hg, List.map_singleton, hx, List.length_append, List.length_singleton,
    List.range'_concat, Nat.one_mul]

theorem getLast?_range'_add_one {n : ℕ} (hn : n ≠ 0) {a : ℕ}
    (ha : a ∈ (List.range' first n).getLast?) : a + 1 = first + n := by
  rw [List.getLast?_range'] at ha
  simp only [hn, if_false, Option.mem_def, Option.some.injEq] at ha
  omega

end StrataDB.Lib
