import StrataDB.Index.Search

/-! The order of a search in a proximity graph: which nodes `search_layer_generic`
expands and what its result leaves out. A node is queued when it is first seen, so
it is expanded at most once; a node that was seen and is not in the result lies no
nearer than any that is, since the result gives up its farthest node only when it
is full. -/

namespace StrataDB.Index

open Lib Arrow

/-- The result of a search gives up its farthest node first. -/
def Heaps.FarthestFirst {δ : Type} [LE δ] (H : Heaps δ) : Prop :=
  H.farthest.TakesGreatest fun b a => b.dist ≤ a.dist

namespace LayerSearch

variable {δ : Type} (L : LayerSearch δ)

/-- The nodes whose neighbours `loop` reads, one round after the other. -/
def expansions : ℕ → Frontier L.heaps → List ℕ
  | 0, _ => []
  | fuel + 1, s =>
    match L.heaps.nearest.pop s.candidates with
    | none => []
    | some (c, candidates) =>
      if L.settled s c then []
      else if (L.source.level c.rowId).any (L.layer ≤ ·) then
        match L.saturated (L.expand { s with candidates } c.rowId) with
        | (_, true) => [c.rowId]
        | (s, false) => c.rowId :: expansions fuel s
      else expansions fuel { s with candidates }

/-- The nodes that `search_layer_generic` expands. -/
def expanded (entry : ℕ) : List ℕ := L.expansions (L.source.bound + 1) (L.start entry)

/-- A run of the loop to its end, with the nodes it expands. -/
inductive Rounds : Frontier L.heaps → List ℕ → Frontier L.heaps → Prop
  | exhausted {s : Frontier L.heaps} (hpop : L.heaps.nearest.pop s.candidates = none) :
      Rounds s [] s
  | settled {s : Frontier L.heaps} {c : Candidate δ} {candidates : L.heaps.nearest.Queue}
      (hpop : L.heaps.nearest.pop s.candidates = some (c, candidates)) :
      Rounds s [] { s with candidates }
  | saturated {s t : Frontier L.heaps} {c : Candidate δ} {candidates : L.heaps.nearest.Queue}
      (hpop : L.heaps.nearest.pop s.candidates = some (c, candidates))
      (hround : (L.saturated (L.expand { s with candidates } c.rowId)).1 = t) :
      Rounds s [c.rowId] t
  | expand {s t s' : Frontier L.heaps} {c : Candidate δ} {candidates : L.heaps.nearest.Queue}
      {nodes : List ℕ} (hpop : L.heaps.nearest.pop s.candidates = some (c, candidates))
      (hround : (L.saturated (L.expand { s with candidates } c.rowId)).1 = t)
      (hrest : Rounds t nodes s') : Rounds s (c.rowId :: nodes) s'
  | skip {s s' : Frontier L.heaps} {c : Candidate δ} {candidates : L.heaps.nearest.Queue}
      {nodes : List ℕ} (hpop : L.heaps.nearest.pop s.candidates = some (c, candidates))
      (hrest : Rounds { s with candidates } nodes s') : Rounds s nodes s'

variable {L} {s s' t : Frontier L.heaps} {c : Candidate δ} {node : ℕ} {nodes : List ℕ}

theorem rounds_of_loop {fuel : ℕ} (h : L.loop fuel s = some s') :
    L.Rounds s (L.expansions fuel s) s' := by
  induction fuel generalizing s with
  | zero => cases h
  | succ fuel ih =>
    rw [loop] at h
    rw [expansions]
    cases hpop : L.heaps.nearest.pop s.candidates with
    | none =>
      rw [hpop] at h
      cases h
      exact .exhausted hpop
    | some p =>
      obtain ⟨c, candidates⟩ := p
      rw [hpop] at h
      dsimp only at h ⊢
      split_ifs at h ⊢ with hsettled hlevel
      · cases h
        exact .settled hpop
      · rcases hsat : L.saturated (L.expand { s with candidates } c.rowId) with ⟨t, full⟩
        simp only [hsat] at h ⊢
        cases full with
        | true =>
          cases h
          exact .saturated hpop (by rw [hsat])
        | false => exact .expand hpop (by rw [hsat]) (ih h)
      · exact .skip hpop (ih h)

/-! ### What has been seen and left out -/

section
variable [LinearOrder δ]

/-- The order of a search: each node is queued once, and what the result left out lies
no nearer than what it holds. -/
structure Orderly (s : Frontier L.heaps) : Prop where
  nodup : (L.candidateIds s).Nodup
  queued : ∀ v ∈ L.candidateIds s, v ∈ s.visited
  result : ∀ c ∈ L.heaps.farthest.toList s.result, c.dist = L.distanceTo c.rowId
  covered : ∀ v ∈ s.visited, L.admits v = true → v ∈ L.resultIds s ∨
    L.ef ≤ L.heaps.farthest.length s.result ∧
      ∀ c ∈ L.heaps.farthest.toList s.result, c.dist ≤ L.distanceTo v

variable (hheap : L.heaps.FarthestFirst) (hmetric : L.metric.lt = fun a b => decide (a < b))
include hheap hmetric

variable {dist : δ} {candidates : L.heaps.nearest.Queue}

/-- A node is turned away only by a full result that holds nothing farther. -/
theorem shouldAdd_eq_false (h : L.shouldAdd s dist = false) :
    L.ef ≤ L.heaps.farthest.length s.result ∧
      ∀ c ∈ L.heaps.farthest.toList s.result, c.dist ≤ dist := by
  simp only [shouldAdd, hmetric] at h
  split at h
  · rename_i furthest hpeek
    simp only [Bool.or_eq_false_iff, decide_eq_false_iff_not, not_lt] at h
    exact ⟨h.2, fun c hc => ((hheap.peek hpeek).2 c hc).trans h.1⟩
  · cases h

/-- A full result takes a node in only if it holds a farther one. -/
theorem shouldAdd_eq_true (h : L.shouldAdd s dist = true)
    (hfull : L.ef ≤ L.heaps.farthest.length s.result) :
    L.heaps.farthest.toList s.result = [] ∨
      ∃ c ∈ L.heaps.farthest.toList s.result, dist < c.dist := by
  simp only [shouldAdd, hmetric] at h
  split at h
  · rename_i furthest hpeek
    simp only [Bool.or_eq_true, decide_eq_true_eq] at h
    exact .inr ⟨furthest, (hheap.peek hpeek).1, h.resolve_right (by omega)⟩
  · rename_i hpeek
    exact .inl (Heap.toList_eq_nil_of_peek hpeek)

omit hmetric in
/-- A push onto a full result evicts a node that none lies beyond. -/
theorem toList_pushResult_farthest (s : Frontier L.heaps) (c : Candidate δ)
    (hfull : L.ef ≤ L.heaps.farthest.length s.result) :
    ∃ out, (c :: L.heaps.farthest.toList s.result).Perm
        (out :: L.heaps.farthest.toList (L.pushResult s c).result) ∧
      ∀ b ∈ c :: L.heaps.farthest.toList s.result, b.dist ≤ out.dist := by
  have hpush := L.heaps.farthest.toList_push s.result c
  obtain ⟨out, hperm, hmax⟩ := Heap.TakesGreatest.dropTop hheap
    (L.heaps.farthest.push s.result c) fun hnil => by simpa [hnil] using hpush.length_eq
  refine ⟨out, ?_, fun b hb => hmax b (hpush.mem_iff.mpr hb)⟩
  unfold pushResult
  dsimp only
  rw [Heap.length_push, if_pos (by omega)]
  exact hpush.symm.trans hperm

/-- The new node is in the result, or there was no room for it. -/
theorem Orderly.covered_pushResult (h : L.Orderly s)
    (hadd : L.shouldAdd s (L.distanceTo node) = true)
    {v : ℕ} (hv : v = node ∨ v ∈ s.visited) (hadmits : L.admits v = true) :
    let s' := L.pushResult (L.enqueue s node) ⟨node, L.distanceTo node⟩
    v ∈ L.resultIds s' ∨ L.ef ≤ L.heaps.farthest.length s'.result ∧
      ∀ c ∈ L.heaps.farthest.toList s'.result, c.dist ≤ L.distanceTo v := by
  intro s'
  rcases Nat.lt_or_ge (L.heaps.farthest.length s.result) L.ef with hroom | hfull
  · -- nothing has been left out so far
    have hids : ((L.resultIds s').Perm (node :: L.resultIds s)) := by
      rcases toList_pushResult (L.enqueue s node) ⟨node, L.distanceTo node⟩ with
        ⟨hperm, -⟩ | ⟨-, hfull⟩
      · exact hperm.map Candidate.rowId
      · exact absurd hfull (Nat.not_le.mpr hroom)
    refine .inl (hids.mem_iff.mpr ?_)
    rcases hv with rfl | hv
    · exact List.mem_cons_self
    · refine List.mem_cons_of_mem _ ((h.covered v hv hadmits).resolve_right fun hout => ?_)
      exact absurd hout.1 (Nat.not_le.mpr hroom)
  · obtain ⟨out, hperm, hmax⟩ :=
      toList_pushResult_farthest hheap (L.enqueue s node) ⟨node, L.distanceTo node⟩ hfull
    rw [enqueue_result] at hperm hmax
    have hsub : ∀ b ∈ L.heaps.farthest.toList s'.result,
        b ∈ (⟨node, L.distanceTo node⟩ : Candidate δ) :: L.heaps.farthest.toList s.result :=
      fun b hb => hperm.mem_iff.mpr (List.mem_cons_of_mem _ hb)
    have hlen : L.ef ≤ L.heaps.farthest.length s'.result :=
      hfull.trans_eq (Nat.succ_injective hperm.length_eq)
    have hknown : v ∈ (L.resultIds s).cons node ∨
        ∀ c ∈ L.heaps.farthest.toList s.result, c.dist ≤ L.distanceTo v := by
      rcases hv with rfl | hv
      · exact .inl List.mem_cons_self
      · exact (h.covered v hv hadmits).imp (List.mem_cons_of_mem _) And.right
    rcases hknown with hmem | hout
    · -- it was there just now, so it stays or it is the one evicted
      obtain ⟨e, he, rfl⟩ : ∃ e ∈ (⟨node, L.distanceTo node⟩ : Candidate δ) ::
          L.heaps.farthest.toList s.result, e.rowId = v := List.mem_map.mp hmem
      rcases List.mem_cons.mp (hperm.mem_iff.mp he) with rfl | hin
      · refine .inr ⟨hlen, fun b hb => (hmax b (hsub b hb)).trans_eq ?_⟩
        rcases List.mem_cons.mp he with rfl | he
        · rfl
        · exact h.result e he
      · exact .inl (List.mem_map_of_mem hin)
    · refine .inr ⟨hlen, fun b hb => ?_⟩
      rcases List.mem_cons.mp (hsub b hb) with rfl | hold
      · -- the new node is nearer than one that was left in place of `v`
        rcases shouldAdd_eq_true hheap hmetric hadd hfull with hnil | ⟨f, hf, hlt⟩
        · rw [hnil] at hperm
          have hnone := List.length_eq_zero_iff.mp (Nat.succ_injective hperm.length_eq.symm)
          rw [hnone] at hb
          cases hb
        · exact hlt.le.trans (hout f hf)
      · exact hout b hold

omit hheap hmetric in
theorem Orderly.insert_visited (h : L.Orderly s) (hvisited : s'.visited = insert node s.visited)
    (hcandidates : L.candidateIds s' = L.candidateIds s ∨
      (L.candidateIds s').Perm (node :: L.candidateIds s) ∧ node ∉ s.visited)
    (hresult : ∀ c ∈ L.heaps.farthest.toList s'.result, c.dist = L.distanceTo c.rowId)
    (hcovered : ∀ v ∈ s'.visited, L.admits v = true → v ∈ L.resultIds s' ∨
      L.ef ≤ L.heaps.farthest.length s'.result ∧
        ∀ c ∈ L.heaps.farthest.toList s'.result, c.dist ≤ L.distanceTo v) : L.Orderly s' where
  nodup := by
    rcases hcandidates with heq | ⟨hperm, hnew⟩
    · exact heq ▸ h.nodup
    · exact hperm.nodup_iff.mpr
        (List.nodup_cons.mpr ⟨fun hmem => hnew (h.queued node hmem), h.nodup⟩)
  queued v hv := by
    rw [hvisited]
    rcases hcandidates with heq | ⟨hperm, hnew⟩
    · exact Finset.mem_insert_of_mem (h.queued v (heq ▸ hv))
    · rcases List.mem_cons.mp (hperm.mem_iff.mp hv) with rfl | hv
      · exact Finset.mem_insert_self ..
      · exact Finset.mem_insert_of_mem (h.queued v hv)
  result := hresult
  covered := hcovered

theorem Orderly.visit (h : L.Orderly s) (node : ℕ) : L.Orderly (L.visit s node) := by
  unfold LayerSearch.visit
  by_cases hmem : node ∈ s.visited
  · rwa [if_pos hmem]
  rw [if_neg hmem]
  have hqueue : (L.candidateIds (L.enqueue s node)).Perm (node :: L.candidateIds s) :=
    (L.heaps.nearest.toList_push _ _).map Candidate.rowId
  dsimp only
  split_ifs with hadd hadmits
  · refine h.insert_visited rfl (.inr ⟨hqueue, hmem⟩) (fun c hc => ?_) fun v hv hv' => ?_
    · have hold : c ∈ (⟨node, L.distanceTo node⟩ : Candidate δ) ::
          L.heaps.farthest.toList s.result := by
        rcases toList_pushResult (L.enqueue s node) ⟨node, L.distanceTo node⟩ with
          ⟨hperm, -⟩ | ⟨⟨out, hperm⟩, -⟩
        · exact hperm.mem_iff.mp hc
        · exact hperm.mem_iff.mpr (List.mem_cons_of_mem _ hc)
      rcases List.mem_cons.mp hold with rfl | hold
      · rfl
      · exact h.result c hold
    · exact h.covered_pushResult hheap hmetric hadd (Finset.mem_insert.mp hv) hv'
  · refine h.insert_visited rfl (.inr ⟨hqueue, hmem⟩) h.result fun v hv hv' => ?_
    rcases Finset.mem_insert.mp hv with rfl | hv
    · exact absurd hv' hadmits
    · exact h.covered v hv hv'
  · refine h.insert_visited rfl (.inl rfl) h.result fun v hv hv' => ?_
    rcases Finset.mem_insert.mp hv with rfl | hv
    · exact .inr (shouldAdd_eq_false hheap hmetric (by simpa using hadd))
    · exact h.covered v hv hv'

/-- What the neighbours of a node change: only nodes that were not seen are queued. -/
theorem Orderly.foldl_visit (h : L.Orderly s) (nodes : List ℕ) :
    L.Orderly (nodes.foldl L.visit s) ∧ s.visited ⊆ (nodes.foldl L.visit s).visited ∧
      ∀ v ∈ L.candidateIds (nodes.foldl L.visit s), v ∈ L.candidateIds s ∨ v ∉ s.visited := by
  induction nodes generalizing s with
  | nil => exact ⟨h, Finset.Subset.refl _, fun v hv => .inl hv⟩
  | cons node nodes ih =>
    obtain ⟨hlast, hsub, hcandidates⟩ := ih (h.visit hheap hmetric node)
    have hone : ∀ v ∈ L.candidateIds (L.visit s node), v ∈ L.candidateIds s ∨ v ∉ s.visited := by
      intro v hv
      rcases visit_cases s node with ⟨-, heq⟩ | ⟨-, -, heq⟩ | ⟨hnew, -, heq⟩ | ⟨hnew, -, heq⟩ <;>
        rw [heq] at hv
      · exact .inl hv
      · exact .inl hv
      all_goals
        rcases mem_candidateIds_enqueue.mp hv with rfl | hv
        · exact .inr hnew
        · exact .inl hv
    have hstep : s.visited ⊆ (L.visit s node).visited := by
      rw [visit_visited]
      exact Finset.subset_insert ..
    refine ⟨hlast, hstep.trans hsub, fun v hv => ?_⟩
    rcases hcandidates v hv with hv | hv
    · exact hone v hv
    · exact .inr fun hmem => hv (hstep hmem)

omit hheap hmetric in
theorem Orderly.congr (h : L.Orderly s) (hv : t.visited = s.visited)
    (hc : t.candidates = s.candidates) (hr : t.result = s.result) : L.Orderly t := by
  obtain ⟨_, _, _, _, _⟩ := s
  obtain ⟨_, _, _, _, _⟩ := t
  dsimp only at hv hc hr
  subst hv hc hr
  exact ⟨h.1, h.2, h.3, h.4⟩

omit hheap hmetric in
theorem Orderly.pop (h : L.Orderly s)
    (hpop : L.heaps.nearest.pop s.candidates = some (c, candidates)) :
    L.Orderly { s with candidates } ∧ c.rowId ∈ L.candidateIds s ∧
      c.rowId ∉ L.candidateIds { s with candidates } ∧
      ∀ v ∈ L.candidateIds { s with candidates }, v ∈ L.candidateIds s := by
  have hperm : (L.candidateIds s).Perm (c.rowId :: L.candidateIds { s with candidates }) :=
    (L.heaps.nearest.toList_pop _ _ _ hpop).map Candidate.rowId
  have hsub : ∀ v ∈ L.candidateIds { s with candidates }, v ∈ L.candidateIds s := fun v hv =>
    hperm.mem_iff.mpr (List.mem_cons_of_mem _ hv)
  obtain ⟨hnot, hnodup⟩ := List.nodup_cons.mp (hperm.nodup_iff.mp h.nodup)
  exact ⟨⟨hnodup, fun v hv => h.queued v (hsub v hv), h.result, h.covered⟩,
    hperm.mem_iff.mpr List.mem_cons_self, hnot, hsub⟩

theorem Orderly.round (h : L.Orderly s)
    (hpop : L.heaps.nearest.pop s.candidates = some (c, candidates))
    (hround : (L.saturated (L.expand { s with candidates } c.rowId)).1 = t) :
    L.Orderly t ∧ s.visited ⊆ t.visited ∧ c.rowId ∉ L.candidateIds t ∧
      ∀ v ∈ L.candidateIds t, v ∈ L.candidateIds s ∨ v ∉ s.visited := by
  obtain ⟨hs, hmem, hnot, hsub⟩ := h.pop hpop
  obtain ⟨ht, hvisited, hqueued⟩ :=
    hs.foldl_visit hheap hmetric (L.source.neighbors c.rowId L.layer)
  obtain ⟨hv, hc, hr, -⟩ := saturated_spec (L.expand { s with candidates } c.rowId)
  rw [hround] at hv hc hr
  have hids : L.candidateIds t = L.candidateIds (L.expand { s with candidates } c.rowId) := by
    rw [candidateIds, candidateIds, hc]
  rw [hids, hv]
  refine ⟨ht.congr hv hc hr, hvisited, fun hin => ?_, fun v hin => ?_⟩
  · rcases hqueued _ hin with hin | hin
    · exact hnot hin
    · exact hin (h.queued _ hmem)
  · exact (hqueued v hin).imp_left (hsub v)

/-- A whole run: every node is expanded at most once and was seen. -/
theorem Rounds.orderly (hrun : L.Rounds s nodes s') (h : L.Orderly s) :
    L.Orderly s' ∧ s.visited ⊆ s'.visited ∧ nodes.Nodup ∧
      ∀ v ∈ nodes, v ∈ s'.visited ∧ (v ∈ L.candidateIds s ∨ v ∉ s.visited) := by
  induction hrun with
  | exhausted hpop => exact ⟨h, Finset.Subset.refl _, List.nodup_nil, nofun⟩
  | settled hpop => exact ⟨(h.pop hpop).1, Finset.Subset.refl _, List.nodup_nil, nofun⟩
  | saturated hpop hround =>
    obtain ⟨ht, hsub, -, -⟩ := h.round hheap hmetric hpop hround
    have hmem := (h.pop hpop).2.1
    refine ⟨ht, hsub, List.nodup_singleton _, fun v hv => ?_⟩
    rw [List.mem_singleton.mp hv]
    exact ⟨hsub (h.queued _ hmem), .inl hmem⟩
  | expand hpop hround _ ih =>
    obtain ⟨ht, hsub, hdone, hqueued⟩ := h.round hheap hmetric hpop hround
    obtain ⟨hs', hsub', hnodup, hnodes⟩ := ih ht
    have hmem := (h.pop hpop).2.1
    have hseen := hsub (h.queued _ hmem)
    refine ⟨hs', hsub.trans hsub', List.nodup_cons.mpr ⟨fun hin => ?_, hnodup⟩, fun v hv => ?_⟩
    · -- it left the queue and was seen before
      rcases (hnodes _ hin).2 with hin | hin
      · exact hdone hin
      · exact hin hseen
    · rcases List.mem_cons.mp hv with rfl | hv
      · exact ⟨hsub' hseen, .inl hmem⟩
      · obtain ⟨hv', hwhere⟩ := hnodes v hv
        refine ⟨hv', ?_⟩
        rcases hwhere with hin | hin
        · exact hqueued v hin
        · exact .inr fun hin' => hin (hsub hin')
  | skip hpop _ ih =>
    obtain ⟨hs, -, -, hsub⟩ := h.pop hpop
    obtain ⟨hs', hsub', hnodup, hnodes⟩ := ih hs
    exact ⟨hs', hsub', hnodup, fun v hv => ⟨(hnodes v hv).1, (hnodes v hv).2.imp_left (hsub v)⟩⟩

omit hheap hmetric in
theorem orderly_start (entry : ℕ) : L.Orderly (L.start entry) := by
  have hpush : ∀ H : Heap (Candidate δ), ∀ c, (H.toList (H.push H.empty c)).Perm [c] := by
    intro H c
    simpa [H.toList_empty] using H.toList_push H.empty c
  have hqueue : (L.candidateIds (L.start entry)).Perm [entry] :=
    (hpush _ _).map Candidate.rowId
  refine ⟨hqueue.nodup_iff.mpr (List.nodup_singleton _), fun v hv => ?_, fun c hc => ?_,
    fun v hv hadmits => .inl ?_⟩
  · exact Finset.mem_singleton.mpr (List.mem_singleton.mp (hqueue.mem_iff.mp hv))
  · simp only [start] at hc
    split_ifs at hc
    · rw [List.mem_singleton.mp ((hpush _ _).mem_iff.mp hc)]
    · rw [L.heaps.farthest.toList_empty] at hc
      cases hc
  · rw [Finset.mem_singleton.mp hv] at hadmits ⊢
    simp only [resultIds, start, hadmits, if_true]
    exact ((hpush _ _).map Candidate.rowId).mem_iff.mpr List.mem_cons_self

end

section
variable [LinearOrder δ]

variable (L) in
/-- What the result of a layer's search is. -/
structure Answers (entry : ℕ) (found : List (ℕ × δ)) : Prop where
  once : (L.expanded entry).Nodup
  length_le : found.length ≤ max L.ef 1
  nodup : (found.map Prod.fst).Nodup
  sorted : found.Pairwise fun a b => a.2 ≤ b.2
  admitted : ∀ p ∈ found, L.admits p.1 = true ∧ p.2 = L.distanceTo p.1
  nearest : ∀ v ∈ L.expanded entry, L.admits v = true → v ∉ found.map Prod.fst →
    ∀ p ∈ found, p.2 ≤ L.distanceTo v

/-- `search_layer_generic` answers, whatever its graph, its beam and its settings. -/
theorem searchLayer_answers (hheap : L.heaps.FarthestFirst) {eval : Vector → Vector → δ}
    {infinity : δ} (hmetric : L.metric = orderedMetric eval infinity) {entry : ℕ}
    (hentry : entry < L.source.bound) :
    ∃ found, L.searchLayer entry = some found ∧ L.Answers entry found := by
  obtain ⟨found, hfound, hnodup, hsound, hlength, -⟩ := searchLayer_spec hentry
  obtain ⟨s, hloop, hout⟩ := Option.map_eq_some_iff.mp hfound
  have hlt : L.metric.lt = fun a b => decide (a < b) := by rw [hmetric]; rfl
  obtain ⟨hs, -, honce, hseen⟩ := (rounds_of_loop hloop).orderly hheap hlt (orderly_start entry)
  have hmem : ∀ p, p ∈ found ↔
      p ∈ (L.heaps.farthest.toList s.result).map fun c => (c.rowId, c.dist) := fun p => by
    rw [← hout]
    exact (List.perm_insertionSort ..).mem_iff
  refine ⟨found, hfound, honce, hlength, hnodup, searchLayer_sorted hmetric hfound,
    fun p hp => (hsound p hp).2.2, fun v hv hadmits hnot p hp => ?_⟩
  obtain ⟨c, hc, rfl⟩ := List.mem_map.mp ((hmem p).mp hp)
  rcases hs.covered v (hseen v hv).1 hadmits with hin | ⟨-, hfar⟩
  · obtain ⟨c', hc', rfl⟩ := List.mem_map.mp hin
    refine absurd (List.mem_map.mpr ⟨(c'.rowId, c'.dist), ?_, rfl⟩) hnot
    exact (hmem _).mpr (List.mem_map_of_mem hc')
  · exact hfar c hc

end

end LayerSearch

/-! ### All layers -/

section
variable {δ : Type} (M : Metric δ) (H : Heaps δ) (S : NodeSource) (query : Vector)
  (filter : ℕ → Bool)

/-- The layers and nodes expanded in the descent through the upper layers. -/
def descendExpanded : ℕ → ℕ → List (ℕ × ℕ)
  | 0, _ => []
  | level + 1, entry =>
    let L := queryLayer M H S query filter 1 (level + 1)
    (L.expanded entry).map (level + 1, ·) ++
      descendExpanded level (((L.searchLayer entry).getD []).head?.elim entry Prod.fst)

/-- The layers and nodes that `k_nn_search_generic` expands, in order. -/
def kNnExpanded (ef : ℕ) : List (ℕ × ℕ) :=
  (S.entryPoint.elim [] fun p => descendExpanded M H S query filter p.2 p.1) ++
    (layerZeroEntry M H S query filter).elim [] fun entry =>
      ((queryLayer M H S query filter ef 0).expanded entry).map (0, ·)

end

section
variable {δ : Type} [LinearOrder δ] {eval : Vector → Vector → δ} {infinity : δ} {H : Heaps δ}
  {S : NodeSource} {query : Vector} {filter : ℕ → Bool}

theorem descendExpanded_once (hheap : H.FarthestFirst) (level : ℕ) {entry : ℕ}
    (hentry : entry < S.bound) :
    (descendExpanded (orderedMetric eval infinity) H S query filter level entry).Nodup ∧
      ∀ p ∈ descendExpanded (orderedMetric eval infinity) H S query filter level entry,
        1 ≤ p.1 ∧ p.1 ≤ level := by
  induction level generalizing entry with
  | zero => exact ⟨List.nodup_nil, nofun⟩
  | succ level ih =>
    obtain ⟨found, hfound, hanswers⟩ := LayerSearch.searchLayer_answers
      (L := queryLayer (orderedMetric eval infinity) H S query filter 1 (level + 1)) hheap rfl
        hentry
    obtain ⟨found', hfound', -, hsound, -⟩ := LayerSearch.searchLayer_spec
      (L := queryLayer (orderedMetric eval infinity) H S query filter 1 (level + 1)) hentry
    cases hfound.symm.trans hfound'
    have hnext : found.head?.elim entry Prod.fst < S.bound := by
      cases found with
      | nil => exact hentry
      | cons p found => exact (hsound p List.mem_cons_self).2.1
    obtain ⟨hnodup, hlayers⟩ := ih hnext
    rw [descendExpanded, hfound]
    refine ⟨List.nodup_append.mpr ⟨hanswers.once.map fun _ _ h => (Prod.mk.inj h).2, hnodup,
      fun p hp q hq heq => ?_⟩, fun p hp => ?_⟩
    · obtain ⟨v, -, rfl⟩ := List.mem_map.mp hp
      have := (hlayers q hq).2
      rw [← heq] at this
      exact absurd this (Nat.not_succ_le_self _)
    · rcases List.mem_append.mp hp with hp | hp
      · obtain ⟨v, -, rfl⟩ := List.mem_map.mp hp
        exact ⟨Nat.succ_le_succ (Nat.zero_le _), Nat.le_refl _⟩
      · exact ⟨(hlayers p hp).1, (hlayers p hp).2.trans (Nat.le_succ _)⟩

variable (eval infinity S query filter) in
theorem kNnExpanded_once (hheap : H.FarthestFirst) (ef : ℕ) :
    (kNnExpanded (orderedMetric eval infinity) H S query filter ef).Nodup := by
  unfold kNnExpanded
  refine List.nodup_append.mpr ⟨?_, ?_, fun p hp q hq heq => ?_⟩
  · cases hentry : S.entryPoint with
    | none => exact List.nodup_nil
    | some p => exact (descendExpanded_once hheap p.2 (S.entryPoint_lt p hentry)).1
  · cases he : layerZeroEntry (orderedMetric eval infinity) H S query filter with
    | none => exact List.nodup_nil
    | some e =>
      obtain ⟨_, -, hanswers⟩ := LayerSearch.searchLayer_answers
        (L := queryLayer (orderedMetric eval infinity) H S query filter ef 0) hheap rfl
        (layerZeroEntry_lt he)
      exact hanswers.once.map fun _ _ h => (Prod.mk.inj h).2
  · -- the layers of the descent are above layer 0
    have hzero : q.1 = 0 := by
      cases he : layerZeroEntry (orderedMetric eval infinity) H S query filter with
      | none => simp [he] at hq
      | some e =>
        rw [he] at hq
        obtain ⟨v, -, rfl⟩ := List.mem_map.mp hq
        rfl
    cases hentry : S.entryPoint with
    | none => simp [hentry] at hp
    | some r =>
      rw [hentry] at hp
      have := ((descendExpanded_once hheap r.2 (S.entryPoint_lt r hentry)).2 p hp).1
      rw [heq, hzero] at this
      exact absurd this (by decide)

theorem mem_kNnExpanded_zero (hheap : H.FarthestFirst) {ef e node : ℕ}
    (he : layerZeroEntry (orderedMetric eval infinity) H S query filter = some e)
    (hnode : (0, node) ∈ kNnExpanded (orderedMetric eval infinity) H S query filter ef) :
    node ∈ (queryLayer (orderedMetric eval infinity) H S query filter ef 0).expanded e := by
  rw [kNnExpanded, he, List.mem_append] at hnode
  rcases hnode with hdescent | hzero
  · cases hentry : S.entryPoint with
    | none => simp [hentry] at hdescent
    | some p =>
      rw [hentry] at hdescent
      exact absurd ((descendExpanded_once hheap p.2 (S.entryPoint_lt p hentry)).2 _ hdescent).1
        (Nat.not_succ_le_zero _)
  · obtain ⟨v, hv, heq⟩ := List.mem_map.mp hzero
    rwa [← (Prod.mk.inj heq).2]

variable (eval infinity S query filter) in
/-- On every source of nodes a search ends after expanding each node at most once per
layer, and answers with admitted nodes in order of distance; what it saw and left out
in the lowest layer lies no nearer. Each layer answers so under every setting. -/
theorem search_well_formed (hheap : H.FarthestFirst)
    (hdim : S.dimension = 0 ∨ query.length = S.dimension) (k ef : ℕ) :
    (∀ width layer saturate, ∀ entry < S.bound, ∃ found,
      (⟨orderedMetric eval infinity, H, S, query, width, layer, filter, saturate⟩ :
        LayerSearch δ).searchLayer entry = some found ∧
      (⟨orderedMetric eval infinity, H, S, query, width, layer, filter, saturate⟩ :
        LayerSearch δ).Answers entry found) ∧
    ∃ hits, kNnSearch (orderedMetric eval infinity) H S query filter k ef = some (.ok hits) ∧
      (kNnExpanded (orderedMetric eval infinity) H S query filter ef).Nodup ∧
      hits.length ≤ min k (max ef 1) ∧ (hits.map Prod.fst).Nodup ∧
      (hits.Pairwise fun p q => p.2 ≤ q.2) ∧
      (∀ p ∈ hits, S.isDeleted p.1 = false ∧ filter (S.rowId p.1) = true ∧
        ∃ v, S.vector p.1 = some v ∧ p.2 = eval query v) ∧
      ∀ node v, (0, node) ∈ kNnExpanded (orderedMetric eval infinity) H S query filter ef →
        S.vector node = some v → S.isDeleted node = false → filter (S.rowId node) = true →
        node ∉ hits.map Prod.fst → ∀ p ∈ hits, p.2 ≤ eval query v := by
  refine ⟨fun width layer saturate entry hentry =>
    LayerSearch.searchLayer_answers hheap rfl hentry, ?_⟩
  have hmatch : ¬ (S.dimension ≠ 0 ∧ query.length ≠ S.dimension) := by tauto
  have honce := kNnExpanded_once eval infinity S query filter hheap ef
  cases he : layerZeroEntry (orderedMetric eval infinity) H S query filter with
  | none =>
    refine ⟨[], kNnSearch_of_entryPoint_eq_none hmatch (entryPoint_eq_none hmatch he), honce,
      Nat.zero_le _, List.nodup_nil, List.Pairwise.nil, nofun, nofun⟩
  | some e =>
    set L := queryLayer (orderedMetric eval infinity) H S query filter ef 0 with hL
    obtain ⟨found, hfound, hanswers⟩ := LayerSearch.searchLayer_answers (L := L) hheap rfl
      (layerZeroEntry_lt he)
    have hadmits : ∀ v, L.admits v = true ↔ (S.vector v).isSome = true ∧
        S.isDeleted v = false ∧ filter (S.rowId v) = true := fun v => by
      simp [LayerSearch.admits, hL, queryLayer, and_assoc]
    have hdist : ∀ node v, S.vector node = some v → L.distanceTo node = eval query v :=
      fun node v hv => by
        simp [LayerSearch.distanceTo, hL, queryLayer, hv, orderedMetric]
    refine ⟨found.take k, by rw [kNnSearch_eq he, hfound]; rfl, honce, ?_, ?_, ?_, ?_, ?_⟩
    · have hle : found.length ≤ max ef 1 := hanswers.length_le
      rw [List.length_take]
      exact min_le_min_left k hle
    · rw [List.map_take]
      exact hanswers.nodup.sublist (List.take_sublist _ _)
    · exact hanswers.sorted.sublist (List.take_sublist _ _)
    · intro p hp
      obtain ⟨hadm, hp2⟩ := hanswers.admitted p (List.mem_of_mem_take hp)
      obtain ⟨hvec, hdel, hpass⟩ := (hadmits p.1).mp hadm
      obtain ⟨v, hv⟩ := Option.isSome_iff_exists.mp hvec
      exact ⟨hdel, hpass, v, hv, hp2.trans (hdist p.1 v hv)⟩
    · intro node v hnode hv hdel hpass hnot p hp
      have hexp : node ∈ L.expanded e := mem_kNnExpanded_zero hheap he hnode
      have hadm := (hadmits node).mpr ⟨by simp [hv], hdel, hpass⟩
      rw [← hdist node v hv]
      by_cases hin : node ∈ found.map Prod.fst
      · -- it was found and cut off, so it is sorted behind
        obtain ⟨q, hq, rfl⟩ := List.mem_map.mp hin
        have hdrop : q ∈ found.drop k := by
          rw [← List.take_append_drop k found, List.mem_append] at hq
          exact hq.resolve_left fun hmem => hnot (List.mem_map_of_mem hmem)
        have hsorted := hanswers.sorted
        rw [← List.take_append_drop k found, List.pairwise_append] at hsorted
        rw [← (hanswers.admitted q hq).2]
        exact hsorted.2.2 p hp q hdrop
      · exact hanswers.nearest node hexp hadm hin p (List.mem_of_mem_take hp)

end

/-- Five nodes in a row, searched from one end with a beam of two. -/
theorem search_well_formed_rowOfFive :
    ∃ hits, kNnSearch (orderedMetric (fun _ v => (v.headD (Binary.zero 8 23)).magnitude) 0)
        (listHeaps fun a b => decide (a < b)) rowOfFive [Binary.zero 8 23] (fun _ => true) 3 2 =
          some (.ok hits) ∧ hits.length ≤ 2 := by
  have hheap : (listHeaps fun a b : ℕ => decide (a < b)).FarthestFirst :=
    listHeap_takesGreatest Candidate.dist
  obtain ⟨-, hits, hsearch, -, hlen, -⟩ := search_well_formed
    (fun _ v => (v.headD (Binary.zero 8 23)).magnitude) 0 rowOfFive [Binary.zero 8 23]
    (fun _ => true) hheap (.inr rfl) 3 2
  exact ⟨hits, hsearch, hlen⟩

end StrataDB.Index
