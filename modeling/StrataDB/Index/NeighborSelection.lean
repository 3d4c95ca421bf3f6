import Mathlib.Order.Defs.LinearOrder
import StrataDB.Index.Construction
import StrataDB.Lib.Selection

/-! Which candidates `select_neighbors_heuristic_into` picks (`index/src/graph.rs`), for
alpha = 1 and distances in a total order. The candidates are visited from the nearest to
the farthest, and one is picked unless a picked one is closer to it than the query is. -/

namespace StrataDB.Index.Hnsw

open Lib Arrow

/-- The buffers that the calls share. -/
structure HeuristicBuffers (δ : Type) where
  working : List (ℕ × δ)
  out : List ℕ

/-- `select_neighbors_heuristic_into`, with what the buffers hold before and after. -/
def selectNeighborsHeuristicInto {δ : Type} (C : Config δ) (candidates : List (ℕ × δ)) (m : ℕ)
    (pairwise : ℕ → ℕ → δ) (buffers : HeuristicBuffers δ) : HeuristicBuffers δ :=
  let buffers := { buffers with working := [] }
  let buffers := { buffers with working := buffers.working ++ candidates }
  let buffers := { buffers with
    working := buffers.working.insertionSort fun a b => !C.metric.lt b.2 a.2 }
  let buffers := { buffers with out := [] }
  { buffers with out := buffers.working.foldl (pick C m pairwise) buffers.out }

variable {δ : Type} {C : Config δ}

section

variable [LinearOrder δ]

/-- What has been picked once these candidates have been visited. A candidate is left out
because of one picked before it, or because enough had been picked before it. -/
structure Picked (m : ℕ) (pairwise : ℕ → ℕ → δ) (seen picks : List (ℕ × δ)) : Prop where
  sublist : picks.Sublist seen
  length_le : picks.length ≤ m
  apart : picks.Pairwise fun p q => ¬ pairwise q.1 p.1 < q.2
  left_out : ∀ earlier c later, seen = earlier ++ c :: later → c ∉ picks →
    (∃ p ∈ picks, p ∈ earlier ∧ pairwise c.1 p.1 < c.2) ∨
      picks.length = m ∧ ∀ p ∈ picks, p ∈ earlier

variable {m : ℕ} {pairwise : ℕ → ℕ → δ} {seen picks : List (ℕ × δ)}

theorem picked_nil : Picked m pairwise [] [] where
  sublist := .slnil
  length_le := Nat.zero_le m
  apart := .nil
  left_out := by simp

variable {c : ℕ × δ}

omit [LinearOrder δ] in
/-- The last of the visited candidates is the new one. -/
theorem last_or_earlier {x : ℕ × δ} {earlier later : List (ℕ × δ)}
    (h : seen ++ [c] = earlier ++ x :: later) :
    (earlier = seen ∧ x = c) ∨ ∃ later', seen = earlier ++ x :: later' := by
  rcases List.eq_nil_or_concat later with rfl | ⟨later, y, rfl⟩
  · obtain ⟨hseen, hlast⟩ := List.append_inj' h rfl
    exact .inl ⟨hseen.symm, (List.singleton_inj.mp hlast).symm⟩
  · rw [List.concat_eq_append, ← List.cons_append, ← List.append_assoc] at h
    exact .inr ⟨later, (List.append_inj' h rfl).1⟩

/-- A candidate that is not picked leaves the rest as it was. -/
theorem Picked.skip (h : Picked m pairwise seen picks)
    (hc : (∃ p ∈ picks, pairwise c.1 p.1 < c.2) ∨ picks.length = m) :
    Picked m pairwise (seen ++ [c]) picks where
  sublist := h.sublist.trans (List.sublist_append_left _ _)
  length_le := h.length_le
  apart := h.apart
  left_out := by
    intro earlier x later heq hx
    rcases last_or_earlier heq with ⟨rfl, rfl⟩ | ⟨later', hseen⟩
    · rcases hc with ⟨p, hp, hlt⟩ | hm
      · exact .inl ⟨p, hp, h.sublist.subset hp, hlt⟩
      · exact .inr ⟨hm, fun p hp => h.sublist.subset hp⟩
    · exact h.left_out earlier x later' hseen hx

/-- A candidate is picked as long as there is room and nothing picked dominates it. -/
theorem Picked.take (h : Picked m pairwise seen picks) (hm : picks.length < m)
    (hc : ∀ p ∈ picks, ¬ pairwise c.1 p.1 < c.2) :
    Picked m pairwise (seen ++ [c]) (picks ++ [c]) where
  sublist := h.sublist.append (.refl _)
  length_le := by simpa using Nat.succ_le_of_lt hm
  apart := List.pairwise_append.mpr ⟨h.apart, List.pairwise_singleton _ _, by simpa using hc⟩
  left_out := by
    intro earlier x later heq hx
    rw [List.mem_append, not_or] at hx
    rcases last_or_earlier heq with ⟨-, hlast⟩ | ⟨later', hseen⟩
    · exact absurd (List.mem_singleton.mpr hlast) hx.2
    · rcases h.left_out earlier x later' hseen hx.1 with ⟨p, hp, hlt⟩ | ⟨hfull, -⟩
      · exact .inl ⟨p, List.mem_append_left _ hp, hlt⟩
      · omega

variable (hlt : ∀ a b, C.metric.lt a b = decide (a < b)) (hrelax : ∀ d, C.relax d = d)

include hlt hrelax

theorem Picked.step (h : Picked m pairwise seen picks) (c : ℕ × δ) :
    ∃ picks', pick C m pairwise (picks.map Prod.fst) c = picks'.map Prod.fst ∧
      Picked m pairwise (seen ++ [c]) picks' := by
  unfold pick
  split_ifs with hfull hdom
  · have hlen : picks.length = m := by
      have := h.length_le
      rw [List.length_map] at hfull
      omega
    exact ⟨picks, rfl, h.skip (.inr hlen)⟩
  · simp only [List.any_map, List.any_eq_true, Function.comp_apply, hlt, hrelax,
      decide_eq_true_eq] at hdom
    exact ⟨picks, rfl, h.skip (.inl hdom)⟩
  · simp only [List.any_map, List.any_eq_true, Function.comp_apply, hlt, hrelax,
      decide_eq_true_eq, not_exists, not_and] at hdom
    rw [List.length_map] at hfull
    exact ⟨picks ++ [c], by simp, h.take (by omega) hdom⟩

theorem Picked.foldl (h : Picked m pairwise seen picks) (rest : List (ℕ × δ)) :
    ∃ picks', rest.foldl (pick C m pairwise) (picks.map Prod.fst) = picks'.map Prod.fst ∧
      Picked m pairwise (seen ++ rest) picks' := by
  induction rest generalizing seen picks with
  | nil => exact ⟨picks, rfl, by simpa using h⟩
  | cons c rest ih =>
    obtain ⟨picks₁, heq, h₁⟩ := h.step hlt hrelax c
    obtain ⟨picks', heq', h'⟩ := ih h₁
    refine ⟨picks', ?_, by simpa using h'⟩
    rw [List.foldl_cons, heq, heq']

omit hlt hrelax in
/-- The first candidate is picked if any is to be. -/
theorem Picked.head_mem {rest : List (ℕ × δ)} (h : Picked m pairwise (c :: rest) picks)
    (hm : 1 ≤ m) : c ∈ picks := by
  by_contra hc
  rcases h.left_out [] c rest rfl hc with ⟨p, -, hp, -⟩ | ⟨hlen, hall⟩
  · cases hp
  · have hnil : picks = [] := List.eq_nil_iff_forall_not_mem.mpr fun p hp => by
      simpa using hall p hp
    rw [hnil, List.length_nil] at hlen
    omega

omit hlt hrelax in
/-- What is picked and why the rest is left out. The candidates are visited by their
distance to the query, and those at the same distance in the order they were given in. -/
theorem neighbor_selection (hlt : ∀ a b, C.metric.lt a b = decide (a < b))
    (hrelax : ∀ d, C.relax d = d) (candidates : List (ℕ × δ))
    (hnodup : (candidates.map Prod.fst).Nodup) (m : ℕ) (pairwise : ℕ → ℕ → δ)
    (buffers : HeuristicBuffers δ) :
    ∃ picks : List (ℕ × δ),
      (selectNeighborsHeuristicInto C candidates m pairwise buffers).out = picks.map Prod.fst ∧
      picks.length ≤ m ∧ (picks.map Prod.fst).Nodup ∧ (∀ p ∈ picks, p ∈ candidates) ∧
      (picks.Pairwise fun p q => p.2 ≤ q.2) ∧
      (1 ≤ m → candidates ≠ [] → ∃ p ∈ picks, ∀ c ∈ candidates, p.2 ≤ c.2) ∧
      (picks.Pairwise fun p q => ¬ pairwise q.1 p.1 < q.2) ∧
      (∀ earlier c later,
        (candidates.mergeSort fun a b => decide (a.2 ≤ b.2)) = earlier ++ c :: later →
        c ∉ picks → (∃ p ∈ picks, p ∈ earlier ∧ pairwise c.1 p.1 < c.2) ∨
          picks.length = m ∧ ∀ p ∈ picks, p ∈ earlier) ∧
      ∀ buffers', selectNeighborsHeuristicInto C candidates m pairwise buffers' =
        selectNeighborsHeuristicInto C candidates m pairwise buffers := by
  have hle : ∀ a b : ℕ × δ, (!C.metric.lt b.2 a.2) = decide (a.2 ≤ b.2) := fun a b => by
    rw [hlt, ← decide_not]
    exact decide_eq_decide.mpr not_lt
  have htrans : ∀ a b c : ℕ × δ, decide (a.2 ≤ b.2) = true → decide (b.2 ≤ c.2) = true →
      decide (a.2 ≤ c.2) = true := fun a b c => by simpa using le_trans
  have htotal : ∀ a b : ℕ × δ, (decide (a.2 ≤ b.2) || decide (b.2 ≤ a.2)) = true := fun a b => by
    simpa using le_total a.2 b.2
  have hsort : (candidates.insertionSort fun a b => !C.metric.lt b.2 a.2) =
      candidates.mergeSort fun a b => decide (a.2 ≤ b.2) := by
    simp only [hle]
    exact insertionSort_eq_mergeSort htrans htotal candidates
  have hsorted : (candidates.mergeSort fun a b => decide (a.2 ≤ b.2)).Pairwise
      fun a b => a.2 ≤ b.2 :=
    (List.pairwise_mergeSort htrans htotal candidates).imp fun h => of_decide_eq_true h
  have hperm := List.mergeSort_perm candidates fun a b => decide (a.2 ≤ b.2)
  obtain ⟨picks, hout, h⟩ := (picked_nil (m := m)).foldl hlt hrelax
    (candidates.mergeSort fun a b => decide (a.2 ≤ b.2))
  rw [List.nil_append] at h
  refine ⟨picks, ?_, h.length_le, ?_, fun p hp => hperm.mem_iff.mp (h.sublist.subset hp),
    hsorted.sublist h.sublist, fun hm hne => ?_, h.apart, h.left_out, fun _ => rfl⟩
  · rw [← hout, ← hsort]
    rfl
  · exact ((hperm.map Prod.fst).nodup_iff.mpr hnodup).sublist (h.sublist.map Prod.fst)
  · cases hcases : candidates.mergeSort fun a b => decide (a.2 ≤ b.2) with
    | nil =>
      rw [hcases] at hperm
      exact absurd hperm.nil_eq.symm hne
    | cons c rest =>
      rw [hcases] at h hsorted hperm
      refine ⟨c, h.head_mem hm, fun x hx => ?_⟩
      rcases List.mem_cons.mp (hperm.mem_iff.mpr hx) with rfl | hx
      · exact le_rfl
      · exact (List.pairwise_cons.mp hsorted).1 x hx

end

/-- The nearest of three candidates, whatever an earlier call left behind. -/
theorem neighbor_selection_three :
    2 ∈ (selectNeighborsHeuristicInto
      (Config.new flatMetric (listHeaps fun a b => decide (a < b)) id 1 2)
      [(1, 5), (2, 3), (3, 4)] 2 (fun _ _ => 1) ⟨[(7, 7)], [8]⟩).out := by
  obtain ⟨picks, hout, -, -, hmem, -, hnearest, -⟩ := neighbor_selection
    (C := Config.new flatMetric (listHeaps fun a b => decide (a < b)) id 1 2)
    (fun _ _ => rfl) (fun _ => rfl) [(1, 5), (2, 3), (3, 4)] (by decide) 2 (fun _ _ => 1)
    ⟨[(7, 7)], [8]⟩
  obtain ⟨p, hp, hall⟩ := hnearest (by decide) (by simp)
  have hle := hall (2, 3) (by simp)
  have hcases := hmem p hp
  simp only [List.mem_cons, List.not_mem_nil, or_false] at hcases
  rw [hout]
  rcases hcases with rfl | rfl | rfl
  · exact absurd hle (by decide)
  · exact List.mem_map.mpr ⟨(2, 3), hp, rfl⟩
  · exact absurd hle (by decide)

end StrataDB.Index.Hnsw
