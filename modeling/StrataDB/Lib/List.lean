import Mathlib.Algebra.Order.BigOperators.Group.List
import Mathlib.Data.List.Flatten
import Mathlib.Data.List.Forall2
import Mathlib.Data.List.Nodup
import Mathlib.Algebra.Order.Ring.Nat
import Mathlib.Data.List.Perm.Subperm

/-! Facts about lists that the loops of a program lead to. -/

namespace StrataDB.Lib

variable {α β γ : Type*}

variable {xs : List α} {ys : List β} {R : α → β → Prop} {x : α} {f : α → Option β} {g : β → γ}
  {b : β} {p : α → Bool}

theorem flatMap_eq_of_forall₂ {g : β → List γ} {h : α → List γ}
    (hxy : List.Forall₂ (fun x y => g y = h x) xs ys) : ys.flatMap g = xs.flatMap h := by
  induction hxy with
  | nil => rfl
  | cons hd _ ih => rw [List.flatMap_cons, List.flatMap_cons, hd, ih]

/-- Elements that contribute nothing may be left out. -/
theorem flatMap_filter_of_nil {q : α → Bool} {g : α → List β}
    (h : ∀ x ∈ xs, q x = false → g x = []) : (xs.filter q).flatMap g = xs.flatMap g := by
  induction xs with
  | nil => rfl
  | cons x xs ih =>
    rw [List.forall_mem_cons] at h
    rw [List.filter_cons, List.flatMap_cons, ← ih h.2]
    split
    · rw [List.flatMap_cons]
    · rw [h.1 (by simp_all), List.nil_append]

theorem flatMap_filter_eq_iff {q : α → Bool} {g : α → List β} :
    (xs.filter q).flatMap g = xs.flatMap g ↔ ∀ x ∈ xs, q x = false → g x = [] := by
  refine ⟨fun heq => ?_, flatMap_filter_of_nil⟩
  induction xs with
  | nil => simp
  | cons x xs ih =>
    rw [List.flatMap_cons, List.filter_cons] at heq
    rw [List.forall_mem_cons]
    split at heq
    · rename_i hq
      rw [List.flatMap_cons, List.append_cancel_left_eq] at heq
      exact ⟨fun hno => by simp [hq] at hno, ih heq⟩
    · -- the tail alone is not longer than what it was filtered from
      have hle := ((List.filter_sublist (p := q) (l := xs)).flatMap g).length_le
      have hnil : g x = [] := by
        rw [heq, List.length_append] at hle
        exact List.length_eq_zero_iff.mp (by omega)
      rw [hnil, List.nil_append] at heq
      exact ⟨fun _ => hnil, ih heq⟩

theorem exists_left_of_forall₂ (h : List.Forall₂ R xs ys) {y : β} (hy : y ∈ ys) :
    ∃ x ∈ xs, R x y := by
  induction h with
  | nil => cases hy
  | cons hd _ ih =>
    rcases List.mem_cons.mp hy with rfl | hy
    · exact ⟨_, List.mem_cons_self, hd⟩
    · obtain ⟨x, hx, hxy⟩ := ih hy
      exact ⟨x, List.mem_cons_of_mem _ hx, hxy⟩

theorem exists_right_of_forall₂ (h : List.Forall₂ R xs ys) (hx : x ∈ xs) : ∃ y ∈ ys, R x y :=
  exists_left_of_forall₂ h.flip hx

/-- Keys of the values of a partial map, filtered before or after. -/
theorem filter_map_filterMap {key : α → γ} {p : γ → Bool} (h : ∀ a b, f a = some b → g b = key a)
    (xs : List α) :
    ((xs.filterMap f).map g).filter p =
      ((xs.filter fun a => p (key a)).filterMap f).map g := by
  induction xs with
  | nil => rfl
  | cons x xs ih =>
    cases hfx : f x with
    | none =>
      rw [List.filterMap_cons_none hfx, ih, List.filter_cons]
      split_ifs
      · rw [List.filterMap_cons_none hfx]
      · rfl
    | some b =>
      rw [List.filterMap_cons_some hfx, List.map_cons, List.filter_cons, List.filter_cons,
        h x b hfx, ih]
      split_ifs
      · rw [List.filterMap_cons_some hfx, List.map_cons, h x b hfx]
      · rfl

/-- Collect the witnesses of a relation between two lists. -/
theorem exists_zip_of_forall₂ {R : α → β → γ → Prop}
    (h : List.Forall₂ (fun x y => ∃ z, R x y z) xs ys) :
    ∃ zs : List (β × γ), zs.map Prod.fst = ys ∧ List.Forall₂ (fun x p => R x p.1 p.2) xs zs := by
  induction h with
  | nil => exact ⟨[], rfl, .nil⟩
  | cons hd _ ih =>
    obtain ⟨z, hz⟩ := hd
    obtain ⟨zs, hzs, hall⟩ := ih
    exact ⟨(_, z) :: zs, by rw [List.map_cons, hzs], .cons hz hall⟩

theorem map_eq_of_forall₂ {f : α → γ} (h : List.Forall₂ (fun x y => g y = f x) xs ys) :
    ys.map g = xs.map f := by
  induction h with
  | nil => rfl
  | cons hd _ ih => rw [List.map_cons, List.map_cons, hd, ih]

theorem pairwise_of_forall₂ {S : β → β → Prop} {T : α → α → Prop} (h : List.Forall₂ R xs ys)
    (hs : ys.Pairwise S) (hT : ∀ x x' y y', R x y → R x' y' → S y y' → T x x') : xs.Pairwise T := by
  induction h with
  | nil => exact .nil
  | cons hxy hrest ih =>
    rw [List.pairwise_cons] at hs ⊢
    refine ⟨fun x' hx' => ?_, ih hs.2⟩
    obtain ⟨y', hy', hxy'⟩ := exists_right_of_forall₂ hrest hx'
    exact hT _ _ _ _ hxy hxy' (hs.1 y' hy')

/-- Where a value of a duplicate-free concatenation comes from. -/
theorem existsUnique_of_nodup_flatMap {f : α → List β} (hn : (xs.flatMap f).Nodup)
    (hb : b ∈ xs.flatMap f) : ∃! k : ℕ, ∃ x, xs[k]? = some x ∧ b ∈ f x := by
  obtain ⟨x, hx, hbx⟩ := List.mem_flatMap.mp hb
  obtain ⟨k, hk⟩ := List.mem_iff_getElem?.mp hx
  refine ⟨k, ⟨x, hk, hbx⟩, ?_⟩
  rintro j ⟨y, hj, hby⟩
  have hdisj := (List.nodup_flatMap.mp hn).2
  obtain ⟨hklt, rfl⟩ := List.getElem?_eq_some_iff.mp hk
  obtain ⟨hjlt, rfl⟩ := List.getElem?_eq_some_iff.mp hj
  rcases Nat.lt_trichotomy j k with hlt | heq | hlt
  · exact absurd hbx (List.pairwise_iff_getElem.mp hdisj j k hjlt hklt hlt hby)
  · exact heq
  · exact absurd hby (List.pairwise_iff_getElem.mp hdisj k j hklt hjlt hlt hbx)

/-- With distinct keys, an element is the first one with its key. -/
theorem find?_key_eq [DecidableEq β] {f : α → β} (hn : (xs.map f).Nodup) (hx : x ∈ xs) :
    xs.find? (fun y => f y == f x) = some x := by
  induction xs with
  | nil => cases hx
  | cons y xs ih =>
    rw [List.map_cons, List.nodup_cons] at hn
    rcases List.mem_cons.mp hx with rfl | hmem
    · simp
    · have hne : f y ≠ f x := fun heq => hn.1 (List.mem_map.mpr ⟨x, hmem, heq.symm⟩)
      rw [List.find?_cons_of_neg (by simpa using hne)]
      exact ih hn.2 hmem

theorem zipIdx_pairwise (xs : List α) :
    xs.zipIdx.Pairwise fun p q => p.2 ≠ q.2 := by
  refine List.pairwise_map.mp (?_ : (xs.zipIdx.map Prod.snd).Nodup)
  rw [List.zipIdx_map_snd]
  exact List.nodup_range'

theorem zipIdx_map_fst_eq (xs : List (α × β)) :
    (xs.map Prod.fst).zipIdx = xs.zipIdx.map fun p => (p.1.1, p.2) := by
  rw [List.zipIdx_map]
  rfl

theorem sum_filterMap_le {g : β → ℕ} {w : α → ℕ} (hf : ∀ x y, f x = some y → g y = w x)
    (xs : List α) : ((xs.filterMap f).map g).sum ≤ (xs.map w).sum := by
  induction xs with
  | nil => exact Nat.le_refl _
  | cons x xs ih =>
    rw [List.map_cons, List.sum_cons]
    cases hx : f x with
    | none =>
      rw [List.filterMap_cons_none hx]
      omega
    | some y =>
      rw [List.filterMap_cons_some hx, List.map_cons, List.sum_cons, hf x y hx]
      omega

theorem sum_map_le_of_subset {ys : List α} (hn : xs.Nodup) (h : xs ⊆ ys) (w : α → ℕ) :
    (xs.map w).sum ≤ (ys.map w).sum := by
  obtain ⟨zs, hperm, hsub⟩ := hn.subperm h
  rw [← (hperm.map w).sum_eq]
  exact (hsub.map w).sum_le_sum fun _ _ => Nat.zero_le _

/-- Replacing one element changes a sum by the difference of the two. -/
theorem sum_map_set {f : α → ℕ} {i : ℕ} (h : xs[i]? = some x) (y : α) :
    ((xs.set i y).map f).sum + f x = (xs.map f).sum + f y := by
  induction xs generalizing i with
  | nil => cases h
  | cons z xs ih =>
    cases i with
    | zero =>
      cases h
      simp only [List.set_cons_zero, List.map_cons, List.sum_cons]
      omega
    | succ i =>
      have := ih h
      simp only [List.set_cons_succ, List.map_cons, List.sum_cons]
      omega

/-! ### Elements at different positions -/

/-- Elements at different positions are related. -/
def Apart (R : α → α → Prop) (xs : List α) : Prop :=
  ∀ (i j : ℕ) (x y : α), i ≠ j → xs[i]? = some x → xs[j]? = some y → R x y

section

variable {R : α → α → Prop} {xs : List α}

variable {i j : ℕ} {a y : α}

/-- What is at a position after it was overwritten. -/
theorem getElem?_set_cases (h : (xs.set i a)[j]? = some y) :
    (j = i ∧ y = a) ∨ (j ≠ i ∧ xs[j]? = some y) := by
  rw [List.getElem?_set] at h
  split at h
  · rename_i hij
    split at h
    · exact .inl ⟨hij.symm, (Option.some.inj h).symm⟩
    · cases h
  · rename_i hij
    exact .inr ⟨Ne.symm hij, h⟩

theorem getElem?_singleton_cases {x : α} (h : [x][i]? = some y) : i = 0 ∧ y = x := by
  cases i with
  | zero => exact ⟨rfl, (Option.some.inj h).symm⟩
  | succ i => cases h

theorem getElem?_concat_cases (h : (xs ++ [a])[j]? = some y) :
    (j = xs.length ∧ y = a) ∨ xs[j]? = some y := by
  rcases Nat.lt_trichotomy j xs.length with hj | rfl | hj
  · exact .inr (by rwa [List.getElem?_append_left hj] at h)
  · rw [List.getElem?_append_right (Nat.le_refl _), Nat.sub_self] at h
    exact .inl ⟨rfl, (Option.some.inj h).symm⟩
  · rw [List.getElem?_eq_none (by simp; omega)] at h
    cases h

theorem Apart.set (h : Apart R xs) (ha : ∀ j y, j ≠ i → xs[j]? = some y → R a y ∧ R y a) :
    Apart R (xs.set i a) := by
  intro j k x y hjk hj hk
  rcases getElem?_set_cases hj with ⟨rfl, rfl⟩ | ⟨hji, hxs⟩ <;>
    rcases getElem?_set_cases hk with ⟨rfl, rfl⟩ | ⟨hki, hys⟩
  · exact absurd rfl hjk
  · exact (ha k y hki hys).1
  · exact (ha j x hji hxs).2
  · exact h j k x y hjk hxs hys

theorem Apart.concat (h : Apart R xs) (ha : ∀ y ∈ xs, R a y ∧ R y a) : Apart R (xs ++ [a]) := by
  intro j k x y hjk hj hk
  rcases getElem?_concat_cases hj with ⟨rfl, rfl⟩ | hxs <;>
    rcases getElem?_concat_cases hk with ⟨rfl, rfl⟩ | hys
  · exact absurd rfl hjk
  · exact (ha y (List.mem_of_getElem? hys)).1
  · exact (ha x (List.mem_of_getElem? hxs)).2
  · exact h j k x y hjk hxs hys

end

/-! ### Sums -/

/-- One entry taken out of a sum, told apart from the others by `g`. -/
theorem sum_map_eq_add_filter [DecidableEq γ] (f : α → ℕ) (g : α → γ) {l : List α}
    (hnodup : (l.map g).Nodup) {a : α} (ha : a ∈ l) :
    (l.map f).sum = f a + ((l.filter fun b => g b ≠ g a).map f).sum := by
  induction l with
  | nil => cases ha
  | cons b l ih =>
    obtain ⟨hnot, hrest⟩ := List.nodup_cons.mp hnodup
    rcases List.mem_cons.mp ha with rfl | hmem
    · have hkeep : (a :: l).filter (fun b => g b ≠ g a) = l := by
        rw [List.filter_cons_of_neg (by simp), List.filter_eq_self]
        intro c hc
        refine decide_eq_true fun heq => hnot ?_
        exact heq ▸ List.mem_map_of_mem hc
      rw [hkeep, List.map_cons, List.sum_cons]
    · have hne : g b ≠ g a := fun heq => hnot (heq ▸ List.mem_map_of_mem hmem)
      rw [List.filter_cons_of_pos (by simpa using hne), List.map_cons, List.map_cons,
        List.sum_cons, List.sum_cons, ih hrest hmem]
      omega

/-! ### Elements by position -/

/-! ### Association lists -/

theorem lookup_filter_ne [DecidableEq α] (k : α) (xs : List (α × β)) (i : α) :
    (xs.filter fun p => p.1 ≠ k).lookup i = if i = k then none else xs.lookup i := by
  induction xs with
  | nil => simp
  | cons x xs ih =>
    obtain ⟨j, v⟩ := x
    by_cases hj : j = k
    · subst hj
      rw [List.filter_cons_of_neg (by simp), ih]
      by_cases hi : i = j
      · rw [if_pos hi, if_pos hi]
      · rw [if_neg hi, if_neg hi, List.lookup_cons, beq_false_of_ne hi]
    · rw [List.filter_cons_of_pos (by simpa using hj), List.lookup_cons, List.lookup_cons, ih]
      by_cases hi : i = j
      · simp [hi, hj]
      · rw [beq_false_of_ne hi]

/-- In an association list with distinct keys a lookup finds exactly the entries. -/
theorem lookup_eq_some_iff_mem [BEq α] [LawfulBEq α] {xs : List (α × β)}
    (hn : (xs.map Prod.fst).Nodup) {k : α} : xs.lookup k = some b ↔ (k, b) ∈ xs := by
  induction xs with
  | nil => simp
  | cons x xs ih =>
    obtain ⟨hfresh, hn⟩ := List.nodup_cons.mp hn
    rw [List.mem_cons]
    by_cases hk : k = x.1
    · subst hk
      rw [List.lookup_cons_self]
      constructor
      · intro h
        exact .inl (Prod.ext rfl (Option.some.inj h).symm)
      · rintro (h | h)
        · exact congrArg some (congrArg Prod.snd h).symm
        · exact absurd (List.mem_map_of_mem h) hfresh
    · rw [List.lookup_cons, beq_false_of_ne hk, ih hn]
      exact ⟨.inr, fun h => h.resolve_left fun h => hk (congrArg Prod.fst h)⟩

/-! ### A condition that holds up to some point of a list -/

theorem takeWhile_eq_filter (h : xs.Pairwise fun a b => p b = true → p a = true) :
    xs.takeWhile p = xs.filter p := by
  induction xs with
  | nil => rfl
  | cons x xs ih =>
    rw [List.pairwise_cons] at h
    by_cases hx : p x = true
    · rw [List.takeWhile_cons_of_pos hx, List.filter_cons_of_pos hx, ih h.2]
    · rw [List.takeWhile_cons_of_neg hx, List.filter_cons_of_neg hx, eq_comm,
        List.filter_eq_nil_iff]
      exact fun y hy hpy => hx (h.1 y hy hpy)

theorem dropWhile_eq_filter_not (h : xs.Pairwise fun a b => p b = true → p a = true) :
    xs.dropWhile p = xs.filter fun x => !p x := by
  induction xs with
  | nil => rfl
  | cons x xs ih =>
    rw [List.pairwise_cons] at h
    by_cases hx : p x = true
    · rw [List.dropWhile_cons_of_pos hx, List.filter_cons_of_neg (by simp [hx]), ih h.2]
    · rw [List.dropWhile_cons_of_neg hx, eq_comm, List.filter_eq_self]
      intro y hy
      rcases List.mem_cons.mp hy with rfl | hy
      · simp [hx]
      · simpa using fun hpy => hx (h.1 y hy hpy)

end StrataDB.Lib
