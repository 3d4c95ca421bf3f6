import Mathlib.Data.Finset.Card
import Mathlib.Data.List.Sort
import Mathlib.Logic.Relation
import StrataDB.Index.Segment
import StrataDB.Lib.Heap

/-! Search in a proximity graph (`search_layer_generic` and `k_nn_search_generic`
in `index/src/graph.rs`), over any source of nodes. A node that is not admitted to
the result is still passed through.

The heaps are used as `std` documents them; which of several candidates one of
them gives back does not matter to anything below. The share of the result that
stayed is compared exactly. -/

namespace StrataDB.Index

open Lib Arrow

/-- `Distance`, with the comparison of its values and the distance to a node
without a vector. -/
structure Metric (δ : Type) where
  eval : Vector → Vector → δ
  infinity : δ
  lt : δ → δ → Bool

/-- `NodeSource`. Its ids are below a bound, as machine integers are. -/
structure NodeSource where
  entryPoint : Option (ℕ × ℕ)
  level : ℕ → Option ℕ
  neighbors : ℕ → ℕ → List ℕ
  vector : ℕ → Option Vector
  rowId : ℕ → ℕ
  dimension : ℕ
  isDeleted : ℕ → Bool
  bound : ℕ
  entryPoint_lt : ∀ e ∈ entryPoint, e.1 < bound
  neighbors_lt : ∀ node level, ∀ n ∈ neighbors node level, n < bound

/-- The node is expanded to this one in this layer. -/
def NodeSource.Edge (S : NodeSource) (layer u v : ℕ) : Prop :=
  (∃ level, S.level u = some level ∧ layer ≤ level) ∧ v ∈ S.neighbors u layer

/-- There is a path in this layer. -/
def NodeSource.Reaches (S : NodeSource) (layer : ℕ) : ℕ → ℕ → Prop :=
  Relation.ReflTransGen (S.Edge layer)

/-- `Candidate`; here the id is that of the node. -/
structure Candidate (δ : Type) where
  rowId : ℕ
  dist : δ
  deriving DecidableEq

/-- The two heaps of a search, nearest first and farthest first. -/
structure Heaps (δ : Type) where
  nearest : Heap (Candidate δ)
  farthest : Heap (Candidate δ)

/-- The arguments of `search_layer_generic`. -/
structure LayerSearch (δ : Type) where
  metric : Metric δ
  heaps : Heaps δ
  source : NodeSource
  query : Vector
  ef : ℕ
  layer : ℕ
  filter : ℕ → Bool
  saturate : Bool

/-- The state of the search, `SearchScratch` and the streak. -/
structure Frontier {δ : Type} (H : Heaps δ) where
  visited : Finset ℕ
  candidates : H.nearest.Queue
  result : H.farthest.Queue
  previous : Finset ℕ
  streak : ℕ

/-- `SATURATION_THRESHOLD_PERCENT`. -/
def saturationThresholdPercent : ℕ := 95

namespace LayerSearch

variable {δ : Type} (L : LayerSearch δ)

/-- Three tenths of the beam width, at least seven. -/
def patience : ℕ := min (max ((3 * L.ef + 9) / 10) 7) (2 ^ 32 - 1)

/-- `distance_to`. -/
def distanceTo (node : ℕ) : δ :=
  (L.source.vector node).elim L.metric.infinity (L.metric.eval L.query)

/-- The node may be part of the result. -/
def admits (node : ℕ) : Bool :=
  (L.source.vector node).isSome && !L.source.isDeleted node && L.filter (L.source.rowId node)

def shouldAdd (s : Frontier L.heaps) (dist : δ) : Bool :=
  match L.heaps.farthest.peek s.result with
  | some furthest =>
    L.metric.lt dist furthest.dist || decide (L.heaps.farthest.length s.result < L.ef)
  | none => true

/-- Push onto the result and evict the furthest if it got too long. -/
def pushResult (s : Frontier L.heaps) (c : Candidate δ) : Frontier L.heaps :=
  let result := L.heaps.farthest.push s.result c
  { s with result := if L.ef < L.heaps.farthest.length result then L.heaps.farthest.dropTop result
                     else result }

/-- Mark the node as seen and queue it. -/
def enqueue (s : Frontier L.heaps) (node : ℕ) : Frontier L.heaps :=
  { s with
    visited := insert node s.visited
    candidates := L.heaps.nearest.push s.candidates ⟨node, L.distanceTo node⟩ }

/-- One neighbour of the node being expanded. -/
def visit (s : Frontier L.heaps) (node : ℕ) : Frontier L.heaps :=
  if node ∈ s.visited then s
  else
    let dist := L.distanceTo node
    let seen := { s with visited := insert node s.visited }
    if L.shouldAdd seen dist then
      if L.admits node then L.pushResult (L.enqueue s node) ⟨node, dist⟩ else L.enqueue s node
    else seen

def expand (s : Frontier L.heaps) (node : ℕ) : Frontier L.heaps :=
  (L.source.neighbors node L.layer).foldl L.visit s

/-- The nodes in the result. -/
def resultIds (s : Frontier L.heaps) : List ℕ :=
  (L.heaps.farthest.toList s.result).map Candidate.rowId

/-- The end of a round; true if the result has been nearly the same for long
enough. -/
def saturated (s : Frontier L.heaps) : Frontier L.heaps × Bool :=
  if !L.saturate then (s, false)
  else
    let current := (L.resultIds s).toFinset
    if s.previous.Nonempty ∧ 0 < L.ef then
      let overlapPercent := 100 * (s.previous ∩ current).card / L.ef
      if saturationThresholdPercent ≤ overlapPercent then
        ({ s with previous := current, streak := s.streak + 1 },
          decide (L.patience ≤ s.streak + 1))
      else ({ s with previous := current, streak := 0 }, false)
    else ({ s with previous := current }, false)

/-- All of the result is settled before this candidate. -/
def settled (s : Frontier L.heaps) (c : Candidate δ) : Bool :=
  match L.heaps.farthest.peek s.result with
  | some furthest =>
    L.metric.lt furthest.dist c.dist && decide (L.ef ≤ L.heaps.farthest.length s.result)
  | none => false

/-- The main loop; none if it has not ended after so many rounds. -/
def loop : ℕ → Frontier L.heaps → Option (Frontier L.heaps)
  | 0, _ => none
  | fuel + 1, s =>
    match L.heaps.nearest.pop s.candidates with
    | none => some s
    | some (c, candidates) =>
      if L.settled s c then some { s with candidates }
      else if (L.source.level c.rowId).any (L.layer ≤ ·) then
        match L.saturated (L.expand { s with candidates } c.rowId) with
        | (s, true) => some s
        | (s, false) => loop fuel s
      else loop fuel { s with candidates }

def start (entry : ℕ) : Frontier L.heaps where
  visited := {entry}
  candidates := L.heaps.nearest.push L.heaps.nearest.empty ⟨entry, L.distanceTo entry⟩
  result := if L.admits entry then
      L.heaps.farthest.push L.heaps.farthest.empty ⟨entry, L.distanceTo entry⟩
    else L.heaps.farthest.empty
  previous := ∅
  streak := 0

/-- The result, nearest first. `sort_by` is stable; what it does with distances that NaN
leaves unordered is not documented, and here they stay where insertion puts them. -/
def output (s : Frontier L.heaps) : List (ℕ × δ) :=
  ((L.heaps.farthest.toList s.result).map fun c => (c.rowId, c.dist)).insertionSort
    fun a b => !L.metric.lt b.2 a.2

/-- `search_layer_generic`. -/
def searchLayer (entry : ℕ) : Option (List (ℕ × δ)) :=
  (L.loop (L.source.bound + 1) (L.start entry)).map L.output

/-! ### What a search keeps -/

/-- Paths in the layer of the search. -/
def Reaches : ℕ → ℕ → Prop := L.source.Reaches L.layer

/-- The nodes still to be expanded. -/
def candidateIds (s : Frontier L.heaps) : List ℕ :=
  (L.heaps.nearest.toList s.candidates).map Candidate.rowId

/-- Everything seen comes from the entry, and the result holds admitted nodes,
each once and with its distance. -/
structure Sound (entry : ℕ) (s : Frontier L.heaps) : Prop where
  entry_mem : entry ∈ s.visited
  visited_lt : ∀ v ∈ s.visited, v < L.source.bound
  reaches : ∀ v ∈ s.visited, L.Reaches entry v
  candidates : ∀ v ∈ L.candidateIds s, v ∈ s.visited
  nodup : (L.resultIds s).Nodup
  result : ∀ c ∈ L.heaps.farthest.toList s.result,
    c.rowId ∈ s.visited ∧ L.admits c.rowId = true ∧ c.dist = L.distanceTo c.rowId
  length : L.heaps.farthest.length s.result ≤ max L.ef 1

/-- Nothing has been left out: what was seen is still queued, being expanded or
fully expanded, and in the result if it may be. -/
structure Exhaustive (s : Frontier L.heaps) (busy : ℕ → Prop) : Prop where
  closed : ∀ v ∈ s.visited, v ∈ L.candidateIds s ∨ busy v ∨ ∀ w, L.source.Edge L.layer v w →
    w ∈ s.visited
  admitted : ∀ v ∈ s.visited, L.admits v = true → v ∈ L.resultIds s

section
variable {L} {entry node : ℕ} {s : Frontier L.heaps} {c : Candidate δ}

@[simp] theorem enqueue_result (s : Frontier L.heaps) (node : ℕ) :
    (L.enqueue s node).result = s.result := rfl

@[simp] theorem enqueue_visited (s : Frontier L.heaps) (node : ℕ) :
    (L.enqueue s node).visited = insert node s.visited := rfl

@[simp] theorem pushResult_visited (s : Frontier L.heaps) (c : Candidate δ) :
    (L.pushResult s c).visited = s.visited := rfl

@[simp] theorem pushResult_candidates (s : Frontier L.heaps) (c : Candidate δ) :
    (L.pushResult s c).candidates = s.candidates := rfl

theorem visit_cases (s : Frontier L.heaps) (node : ℕ) :
    (node ∈ s.visited ∧ L.visit s node = s) ∨
    (node ∉ s.visited ∧ L.ef ≤ L.heaps.farthest.length s.result ∧
      L.visit s node = { s with visited := insert node s.visited }) ∨
    (node ∉ s.visited ∧ L.admits node = false ∧ L.visit s node = L.enqueue s node) ∨
    (node ∉ s.visited ∧ L.admits node = true ∧
      L.visit s node = L.pushResult (L.enqueue s node) ⟨node, L.distanceTo node⟩) := by
  unfold visit
  by_cases hmem : node ∈ s.visited
  · exact .inl ⟨hmem, if_pos hmem⟩
  refine .inr ?_
  rw [if_neg hmem]
  dsimp only
  split_ifs with hadd hadmits
  · exact .inr (.inr ⟨hmem, hadmits, rfl⟩)
  · exact .inr (.inl ⟨hmem, by simpa using hadmits, rfl⟩)
  · refine .inl ⟨hmem, ?_, rfl⟩
    simp only [shouldAdd] at hadd
    split at hadd
    · simp only [Bool.or_eq_true, decide_eq_true_eq, not_or, Nat.not_lt] at hadd
      exact hadd.2
    · exact absurd rfl hadd

/-- A push onto the result either keeps all of it or evicts one while it stays full. -/
theorem toList_pushResult (s : Frontier L.heaps) (c : Candidate δ) :
    (L.heaps.farthest.toList (L.pushResult s c).result).Perm
      (c :: L.heaps.farthest.toList s.result) ∧ L.heaps.farthest.length s.result < L.ef ∨
    (∃ out, (c :: L.heaps.farthest.toList s.result).Perm
      (out :: L.heaps.farthest.toList (L.pushResult s c).result)) ∧
      L.ef ≤ L.heaps.farthest.length s.result := by
  have hpush := L.heaps.farthest.toList_push s.result c
  unfold pushResult
  dsimp only
  rw [Heap.length_push]
  split_ifs with hlong
  · refine .inr ⟨?_, by omega⟩
    obtain ⟨out, hout⟩ := Heap.toList_dropTop (L.heaps.farthest.push s.result c) fun hnil => by
      simpa [hnil] using hpush.length_eq
    exact ⟨out, hpush.symm.trans hout⟩
  · exact .inl ⟨hpush, by omega⟩

theorem mem_candidateIds_enqueue {v : ℕ} :
    v ∈ L.candidateIds (L.enqueue s node) ↔ v = node ∨ v ∈ L.candidateIds s := by
  unfold candidateIds enqueue
  rw [((L.heaps.nearest.toList_push _ _).map _).mem_iff, List.map_cons, List.mem_cons]

variable {s' : Frontier L.heaps} {busy : ℕ → Prop}

/-- A node reached by an edge from one that was seen. -/
theorem Sound.insert_visited (h : L.Sound entry s) (hreach : L.Reaches entry node)
    (hlt : node < L.source.bound) (hvisited : s'.visited = insert node s.visited)
    (hcandidates : ∀ v ∈ L.candidateIds s', v = node ∨ v ∈ L.candidateIds s)
    (hnodup : (L.resultIds s').Nodup)
    (hresult : ∀ c ∈ L.heaps.farthest.toList s'.result, c ∈ L.heaps.farthest.toList s.result ∨
      c = ⟨node, L.distanceTo node⟩ ∧ L.admits node = true)
    (hlength : L.heaps.farthest.length s'.result ≤ max L.ef 1) : L.Sound entry s' where
  entry_mem := by
    rw [hvisited]
    exact Finset.mem_insert_of_mem h.entry_mem
  visited_lt := by
    rw [hvisited]
    exact Finset.forall_mem_insert .. |>.mpr ⟨hlt, h.visited_lt⟩
  reaches := by
    rw [hvisited]
    exact Finset.forall_mem_insert .. |>.mpr ⟨hreach, h.reaches⟩
  candidates := by
    intro v hv
    rw [hvisited]
    rcases hcandidates v hv with rfl | hv
    · exact Finset.mem_insert_self ..
    · exact Finset.mem_insert_of_mem (h.candidates v hv)
  nodup := hnodup
  result := by
    intro c hc
    rw [hvisited]
    rcases hresult c hc with hold | ⟨rfl, hadmits⟩
    · obtain ⟨hmem, hrest⟩ := h.result c hold
      exact ⟨Finset.mem_insert_of_mem hmem, hrest⟩
    · exact ⟨Finset.mem_insert_self .., hadmits, rfl⟩
  length := hlength

/-- The results are among the nodes seen, so a node not yet seen is new to them. -/
theorem Sound.not_mem_resultIds (h : L.Sound entry s) (hnode : node ∉ s.visited) :
    node ∉ L.resultIds s := by
  intro hmem
  obtain ⟨c, hc, rfl⟩ := List.mem_map.mp hmem
  exact hnode (h.result c hc).1

theorem Sound.visit (h : L.Sound entry s) (hreach : L.Reaches entry node)
    (hlt : node < L.source.bound) : L.Sound entry (L.visit s node) := by
  rcases visit_cases s node with ⟨-, heq⟩ | ⟨-, -, heq⟩ | ⟨-, -, heq⟩ | ⟨hnew, hadmits, heq⟩ <;>
    rw [heq]
  · exact h
  · exact h.insert_visited hreach hlt rfl (fun v hv => .inr hv) h.nodup (fun c hc => .inl hc)
      h.length
  · exact h.insert_visited hreach hlt rfl (fun v hv => mem_candidateIds_enqueue.mp hv) h.nodup
      (fun c hc => .inl hc) h.length
  · have hnodup : (node :: L.resultIds s).Nodup :=
      List.nodup_cons.mpr ⟨h.not_mem_resultIds hnew, h.nodup⟩
    have hlength := h.length
    refine h.insert_visited hreach hlt rfl (fun v hv => mem_candidateIds_enqueue.mp hv) ?_ ?_ ?_ <;>
      rcases toList_pushResult (L.enqueue s node) ⟨node, L.distanceTo node⟩ with
        ⟨hperm, hshort⟩ | ⟨⟨out, hperm⟩, hfull⟩
    · exact (hperm.map Candidate.rowId).nodup_iff.mpr hnodup
    · exact (List.nodup_cons.mp ((hperm.map Candidate.rowId).nodup_iff.mp hnodup)).2
    · intro c hc
      rcases List.mem_cons.mp (hperm.mem_iff.mp hc) with rfl | hc
      · exact .inr ⟨rfl, hadmits⟩
      · exact .inl hc
    · intro c hc
      rcases List.mem_cons.mp (hperm.mem_iff.mpr (List.mem_cons_of_mem _ hc)) with rfl | hc
      · exact .inr ⟨rfl, hadmits⟩
      · exact .inl hc
    · have hlen := hperm.length_eq
      simp only [Heap.length, List.length_cons, enqueue_result] at hlen hshort ⊢
      omega
    · have hlen := hperm.length_eq
      simp only [Heap.length, List.length_cons, enqueue_result] at hlen hlength ⊢
      omega

/-- The result is full, or nothing was left out. -/
def Progress (s : Frontier L.heaps) (busy : ℕ → Prop) : Prop :=
  L.ef ≤ L.heaps.farthest.length s.result ∨ L.Exhaustive s busy

theorem visit_visited (s : Frontier L.heaps) (node : ℕ) :
    (L.visit s node).visited = insert node s.visited := by
  rcases visit_cases s node with ⟨hmem, heq⟩ | ⟨-, -, heq⟩ | ⟨-, -, heq⟩ | ⟨-, -, heq⟩ <;> rw [heq]
  · exact (Finset.insert_eq_of_mem hmem).symm
  · rfl
  · rfl

theorem Exhaustive.enqueue (h : L.Exhaustive s busy) (hvisited : s'.visited = insert node s.visited)
    (hcandidates : ∀ v, v = node ∨ v ∈ L.candidateIds s → v ∈ L.candidateIds s')
    (hresult : ∀ v ∈ L.resultIds s, v ∈ L.resultIds s')
    (hnode : L.admits node = true → node ∈ L.resultIds s') : L.Exhaustive s' busy where
  closed v hv := by
    rw [hvisited] at hv ⊢
    rcases Finset.mem_insert.mp hv with rfl | hv
    · exact .inl (hcandidates v (.inl rfl))
    rcases h.closed v hv with hqueued | hbusy | hclosed
    · exact .inl (hcandidates v (.inr hqueued))
    · exact .inr (.inl hbusy)
    · exact .inr (.inr fun w hw => Finset.mem_insert_of_mem (hclosed w hw))
  admitted v hv hadmits := by
    rw [hvisited] at hv
    rcases Finset.mem_insert.mp hv with rfl | hv
    · exact hnode hadmits
    · exact hresult v (h.admitted v hv hadmits)

theorem Progress.visit (h : Progress s busy) (node : ℕ) : Progress (L.visit s node) busy := by
  have hvisited := visit_visited s node
  rcases visit_cases s node with ⟨-, heq⟩ | ⟨-, hfull, heq⟩ | ⟨-, hadmits, heq⟩ | ⟨-, -, heq⟩ <;>
    rw [heq] at hvisited ⊢
  · exact h
  · exact .inl hfull
  · refine h.imp id fun h => h.enqueue hvisited (fun v => mem_candidateIds_enqueue.mpr)
      (fun v hv => hv) fun htrue => ?_
    rw [hadmits] at htrue
    cases htrue
  · rcases toList_pushResult (L.enqueue s node) ⟨node, L.distanceTo node⟩ with
      ⟨hperm, hshort⟩ | ⟨⟨out, hperm⟩, hfull⟩
    · have hids : ∀ v, v = node ∨ v ∈ L.resultIds s →
          v ∈ L.resultIds (L.pushResult (L.enqueue s node) ⟨node, L.distanceTo node⟩) := by
        intro v hv
        exact (hperm.map Candidate.rowId).mem_iff.mpr (List.mem_cons.mpr hv)
      have hopen : ¬ L.ef ≤ L.heaps.farthest.length s.result := Nat.not_le.mpr hshort
      exact .inr ((h.resolve_left hopen).enqueue hvisited
        (fun v => mem_candidateIds_enqueue.mpr) (fun v hv => hids v (.inr hv))
        fun _ => hids node (.inl rfl))
    · refine .inl (hfull.trans ?_)
      have hlen := hperm.length_eq
      simp only [List.length_cons, enqueue_result] at hlen
      simp only [Heap.length, enqueue_result]
      omega

/-- Rounds the loop can still make: one for each node queued or not yet seen. -/
def remaining (s : Frontier L.heaps) : ℕ :=
  L.source.bound - s.visited.card + L.heaps.nearest.length s.candidates

theorem Sound.card_le (h : L.Sound entry s) : s.visited.card ≤ L.source.bound := by
  have hsub : s.visited ⊆ Finset.range L.source.bound := fun v hv =>
    Finset.mem_range.mpr (h.visited_lt v hv)
  simpa using Finset.card_le_card hsub

theorem Sound.remaining_visit (h : L.Sound entry s) (hreach : L.Reaches entry node)
    (hlt : node < L.source.bound) : remaining (L.visit s node) ≤ remaining s := by
  have hle := (h.visit hreach hlt).card_le
  have hpush : ∀ q : L.heaps.nearest.Queue, ∀ c,
      L.heaps.nearest.length (L.heaps.nearest.push q c) = L.heaps.nearest.length q + 1 :=
    Heap.length_push
  rcases visit_cases s node with ⟨-, heq⟩ | ⟨hnew, -, heq⟩ | ⟨hnew, -, heq⟩ | ⟨hnew, -, heq⟩ <;>
    rw [heq] at hle ⊢
  · simp only [remaining, Finset.card_insert_of_notMem hnew]
    omega
  · simp only [remaining, enqueue, hpush, Finset.card_insert_of_notMem hnew] at hle ⊢
    omega
  · simp only [remaining, pushResult_visited, pushResult_candidates, enqueue, hpush,
      Finset.card_insert_of_notMem hnew] at hle ⊢
    omega

theorem Sound.foldl_visit (h : L.Sound entry s) {nodes : List ℕ}
    (hnodes : ∀ v ∈ nodes, L.Reaches entry v ∧ v < L.source.bound) (hprogress : Progress s busy) :
    L.Sound entry (nodes.foldl L.visit s) ∧ Progress (nodes.foldl L.visit s) busy ∧
      remaining (nodes.foldl L.visit s) ≤ remaining s ∧
      ∀ v, v ∈ s.visited ∨ v ∈ nodes → v ∈ (nodes.foldl L.visit s).visited := by
  induction nodes generalizing s with
  | nil => exact ⟨h, hprogress, Nat.le_refl _, fun v hv => hv.resolve_right (by simp)⟩
  | cons node nodes ih =>
    rw [List.forall_mem_cons] at hnodes
    obtain ⟨⟨hreach, hlt⟩, hrest⟩ := hnodes
    obtain ⟨hsound, hprogress', hremaining, hvisited⟩ :=
      ih (h.visit hreach hlt) hrest (hprogress.visit node)
    refine ⟨hsound, hprogress', hremaining.trans (h.remaining_visit hreach hlt), fun v hv => ?_⟩
    refine hvisited v ?_
    rw [visit_visited, Finset.mem_insert]
    rcases hv with hv | hv
    · exact .inl (.inr hv)
    · rcases List.mem_cons.mp hv with rfl | hv
      · exact .inl (.inl rfl)
      · exact .inr hv

theorem Exhaustive.of_closed (h : L.Exhaustive s (· = node))
    (hclosed : ∀ w, L.source.Edge L.layer node w → w ∈ s.visited) :
    L.Exhaustive s fun _ => False where
  closed v hv := by
    rcases h.closed v hv with hqueued | rfl | hdone
    · exact .inl hqueued
    · exact .inr (.inr hclosed)
    · exact .inr (.inr hdone)
  admitted := h.admitted

theorem Sound.pop (h : L.Sound entry s) (hprogress : Progress s fun _ => False)
    {candidates : L.heaps.nearest.Queue}
    (hpop : L.heaps.nearest.pop s.candidates = some (c, candidates)) :
    L.Sound entry { s with candidates } ∧ Progress { s with candidates } (· = c.rowId) ∧
      remaining s = remaining { s with candidates } + 1 ∧ L.Reaches entry c.rowId := by
  have hperm := L.heaps.nearest.toList_pop _ _ _ hpop
  have hids : ∀ v, v ∈ L.candidateIds s ↔
      v = c.rowId ∨ v ∈ L.candidateIds { s with candidates } := fun v => by
    rw [candidateIds, (hperm.map _).mem_iff, List.map_cons, List.mem_cons]
    rfl
  have hlen := hperm.length_eq
  refine ⟨⟨h.entry_mem, h.visited_lt, h.reaches,
    fun v hv => h.candidates v ((hids v).mpr (.inr hv)),
    h.nodup, h.result, h.length⟩, ?_, ?_, ?_⟩
  · refine hprogress.imp id fun hex => ⟨fun v hv => ?_, hex.admitted⟩
    rcases hex.closed v hv with hqueued | hfalse | hclosed
    · rcases (hids v).mp hqueued with heq | hv
      · exact .inr (.inl heq)
      · exact .inl hv
    · exact hfalse.elim
    · exact .inr (.inr hclosed)
  · simp only [remaining, Heap.length, List.length_cons] at hlen ⊢
    omega
  · exact h.reaches _ (h.candidates _ ((hids _).mpr (.inl rfl)))

/-- The end of a round leaves the search alone. It stops it only if the result
has nearly the size asked for. -/
theorem saturated_spec (s : Frontier L.heaps) :
    (L.saturated s).1.visited = s.visited ∧ (L.saturated s).1.candidates = s.candidates ∧
      (L.saturated s).1.result = s.result ∧ ((L.saturated s).2 = true →
        saturationThresholdPercent * L.ef ≤ 100 * L.heaps.farthest.length s.result) := by
  unfold saturated
  dsimp only
  split_ifs with hsaturate hcompared hoverlap
  · exact ⟨rfl, rfl, rfl, nofun⟩
  · refine ⟨rfl, rfl, rfl, fun _ => ?_⟩
    have hsub : (s.previous ∩ (L.resultIds s).toFinset).card ≤ (L.resultIds s).toFinset.card :=
      Finset.card_le_card Finset.inter_subset_right
    have hcard := (L.resultIds s).toFinset_card_le
    have hlen : (L.resultIds s).length = L.heaps.farthest.length s.result := List.length_map _
    rw [Nat.le_div_iff_mul_le hcompared.2] at hoverlap
    omega
  · exact ⟨rfl, rfl, rfl, nofun⟩
  · exact ⟨rfl, rfl, rfl, nofun⟩

theorem Sound.congr (h : L.Sound entry s) (hv : s'.visited = s.visited)
    (hc : s'.candidates = s.candidates) (hr : s'.result = s.result) : L.Sound entry s' := by
  obtain ⟨_, _, _, _, _⟩ := s
  obtain ⟨_, _, _, _, _⟩ := s'
  dsimp only at hv hc hr
  subst hv hc hr
  exact ⟨h.1, h.2, h.3, h.4, h.5, h.6, h.7⟩

theorem Progress.congr (h : Progress s busy) (hv : s'.visited = s.visited)
    (hc : s'.candidates = s.candidates) (hr : s'.result = s.result) : Progress s' busy := by
  obtain ⟨_, _, _, _, _⟩ := s
  obtain ⟨_, _, _, _, _⟩ := s'
  dsimp only at hv hc hr
  subst hv hc hr
  exact h.imp id fun h => ⟨h.1, h.2⟩

/-- How a search ends: with a result that is nearly full, or with everything that
may be in it. -/
def Ended (entry : ℕ) (s : Frontier L.heaps) : Prop :=
  saturationThresholdPercent * L.ef ≤ 100 * L.heaps.farthest.length s.result ∨
    ∀ v, L.Reaches entry v → L.admits v = true → v ∈ L.resultIds s

theorem ended_of_full (hfull : L.ef ≤ L.heaps.farthest.length s.result) : Ended entry s := by
  refine .inl ?_
  unfold saturationThresholdPercent
  omega

/-- With no candidate left, all that the entry reaches has been seen. -/
theorem Exhaustive.ended (h : L.Exhaustive s fun _ => False) (hs : L.Sound entry s)
    (hnil : L.heaps.nearest.toList s.candidates = []) : Ended entry s := by
  have hclosed : ∀ v ∈ s.visited, ∀ w, L.source.Edge L.layer v w → w ∈ s.visited := by
    intro v hv
    rcases h.closed v hv with hqueued | hfalse | hclosed
    · simp [candidateIds, hnil] at hqueued
    · exact hfalse.elim
    · exact hclosed
  have hall : ∀ v, L.Reaches entry v → v ∈ s.visited := by
    intro v hv
    induction hv with
    | refl => exact hs.entry_mem
    | tail _ hedge ih => exact hclosed _ ih _ hedge
  exact .inr fun v hv hadmits => h.admitted v (hall v hv) hadmits

/-- The loop ends after at most one round for each id, and what it leaves is sound. -/
theorem Sound.loop (h : L.Sound entry s) (hprogress : Progress s fun _ => False) {fuel : ℕ}
    (hfuel : remaining s < fuel) :
    ∃ s', L.loop fuel s = some s' ∧ L.Sound entry s' ∧ Ended entry s' := by
  induction fuel generalizing s with
  | zero => omega
  | succ fuel ih =>
    rw [LayerSearch.loop]
    cases hpop : L.heaps.nearest.pop s.candidates with
    | none =>
      refine ⟨s, rfl, h, ?_⟩
      rcases hprogress with hfull | hex
      · exact ended_of_full hfull
      · exact hex.ended h (L.heaps.nearest.pop_eq_none _ hpop)
    | some p =>
      obtain ⟨c, candidates⟩ := p
      obtain ⟨hs, hp, hremaining, hreach⟩ := h.pop hprogress hpop
      dsimp only
      split_ifs with hsettled hlevel
      · refine ⟨_, rfl, hs, ended_of_full ?_⟩
        simp only [settled] at hsettled
        split at hsettled
        · simp only [Bool.and_eq_true, decide_eq_true_eq] at hsettled
          exact hsettled.2
        · cases hsettled
      · have hexpanded : ∃ level, L.source.level c.rowId = some level ∧ L.layer ≤ level := by
          obtain ⟨level, hsome, hle⟩ := (Option.any_eq_true _ _).mp hlevel
          exact ⟨level, hsome, of_decide_eq_true hle⟩
        have hnodes : ∀ v ∈ L.source.neighbors c.rowId L.layer,
            L.Reaches entry v ∧ v < L.source.bound := fun v hv =>
          ⟨hreach.tail ⟨hexpanded, hv⟩, L.source.neighbors_lt _ _ v hv⟩
        obtain ⟨hs', hp', hremaining', hvisited⟩ := hs.foldl_visit hnodes hp
        have hp'' : Progress (L.expand { s with candidates } c.rowId) fun _ => False :=
          hp'.imp id fun hex => hex.of_closed fun w hw => hvisited w (.inr hw.2)
        obtain ⟨hv, hc, hr, hstop⟩ :=
          saturated_spec (L.expand { s with candidates } c.rowId)
        split
        next t hsat =>
          rw [hsat] at hv hc hr hstop
          refine ⟨t, rfl, hs'.congr hv hc hr, .inl ?_⟩
          rw [hr]
          exact hstop rfl
        next t hsat =>
          rw [hsat] at hv hc hr
          refine ih (hs'.congr hv hc hr) (hp''.congr hv hc hr) ?_
          have heq : remaining t = remaining (L.expand { s with candidates } c.rowId) := by
            rw [remaining, remaining, hv, hc]
          rw [heq]
          unfold expand
          omega
      · have hleaf : ∀ w, ¬ L.source.Edge L.layer c.rowId w := by
          rintro w ⟨⟨level, hsome, hle⟩, -⟩
          simp [hsome, hle] at hlevel
        refine ih hs (hp.imp id fun hex => hex.of_closed fun w hw => absurd hw (hleaf w)) ?_
        omega

theorem sound_start (hentry : entry < L.source.bound) : L.Sound entry (L.start entry) := by
  have hempty : ∀ H : Heap (Candidate δ), ∀ c, (H.toList (H.push H.empty c)).Perm [c] := by
    intro H c
    simpa [H.toList_empty] using H.toList_push H.empty c
  have hresult : (L.heaps.farthest.toList (L.start entry).result).Perm
      (if L.admits entry then [⟨entry, L.distanceTo entry⟩] else []) := by
    unfold start
    split_ifs
    · exact hempty _ _
    · exact (L.heaps.farthest.toList_empty).symm ▸ List.Perm.refl _
  refine ⟨Finset.mem_singleton_self _, ?_, ?_, ?_, ?_, ?_, ?_⟩
  · intro v hv
    rwa [Finset.mem_singleton.mp hv]
  · intro v hv
    rw [Finset.mem_singleton.mp hv]
    exact .refl
  · intro v hv
    have := ((hempty _ _).map Candidate.rowId).mem_iff.mp hv
    simpa [start] using this
  · rw [resultIds, (hresult.map _).nodup_iff]
    split_ifs <;> simp
  · intro c hc
    have hmem := hresult.mem_iff.mp hc
    split_ifs at hmem with hadmits
    · rw [List.mem_singleton.mp hmem]
      exact ⟨Finset.mem_singleton_self _, hadmits, rfl⟩
    · cases hmem
  · have hone : (if L.admits entry then [(⟨entry, L.distanceTo entry⟩ : Candidate δ)]
        else []).length ≤ 1 := by split_ifs <;> simp
    exact (hresult.length_eq.le.trans hone).trans (Nat.le_max_right ..)

theorem progress_start : Progress (L.start entry) fun _ => False := by
  have hpush : ∀ H : Heap (Candidate δ), ∀ c, c ∈ H.toList (H.push H.empty c) := fun H c =>
    Heap.mem_push.mpr (.inl rfl)
  refine .inr ⟨fun v hv => .inl ?_, fun v hv hadmits => ?_⟩ <;>
    obtain rfl := Finset.mem_singleton.mp hv
  · exact List.mem_map.mpr ⟨_, hpush _ _, rfl⟩
  · refine List.mem_map.mpr ⟨⟨v, L.distanceTo v⟩, ?_, rfl⟩
    simp only [start, hadmits, if_true]
    exact hpush _ _

/-- What `search_layer_generic` returns: admitted nodes that the entry reaches,
each once and with its distance, and all of them unless it stopped with nearly as
many as it was asked for. -/
theorem searchLayer_spec (hentry : entry < L.source.bound) :
    ∃ found, L.searchLayer entry = some found ∧ (found.map Prod.fst).Nodup ∧
      (∀ p ∈ found, L.Reaches entry p.1 ∧ p.1 < L.source.bound ∧ L.admits p.1 = true ∧
        p.2 = L.distanceTo p.1) ∧ found.length ≤ max L.ef 1 ∧
      (saturationThresholdPercent * L.ef ≤ 100 * found.length ∨
        ∀ v, L.Reaches entry v → L.admits v = true → v ∈ found.map Prod.fst) := by
  have hstart := sound_start (L := L) hentry
  have hfuel : remaining (L.start entry) < L.source.bound + 1 := by
    have hlen : L.heaps.nearest.length (L.start entry).candidates = 1 := by
      rw [start, Heap.length_push, Heap.length, Heap.toList_empty, List.length_nil]
    have hcard : (L.start entry).visited.card = 1 := Finset.card_singleton _
    unfold remaining
    omega
  obtain ⟨s, hloop, hs, hended⟩ := hstart.loop progress_start hfuel
  have hperm : (L.output s).Perm
      ((L.heaps.farthest.toList s.result).map fun c => (c.rowId, c.dist)) :=
    List.perm_insertionSort ..
  have hids : ((L.output s).map Prod.fst).Perm (L.resultIds s) := by
    have hmap := hperm.map Prod.fst
    rw [List.map_map] at hmap
    exact hmap
  have hlen : (L.output s).length = L.heaps.farthest.length s.result := by
    simpa [Heap.length] using hperm.length_eq
  refine ⟨L.output s, by rw [searchLayer, hloop]; rfl, hids.nodup_iff.mpr hs.nodup, ?_, ?_, ?_⟩
  · intro p hp
    obtain ⟨c, hc, rfl⟩ := List.mem_map.mp (hperm.mem_iff.mp hp)
    obtain ⟨hvisited, hadmits, hdist⟩ := hs.result c hc
    exact ⟨hs.reaches _ hvisited, hs.visited_lt _ hvisited, hadmits, hdist⟩
  · exact hlen ▸ hs.length
  · rw [hlen]
    exact hended.imp id fun hall v hv hadmits => hids.mem_iff.mpr (hall v hv hadmits)

end

end LayerSearch

section
variable {δ : Type} (M : Metric δ) (H : Heaps δ) (S : NodeSource) (query : Vector)
  (filter : ℕ → Bool)

/-- The search of one layer on behalf of a query. -/
def queryLayer (ef layer : ℕ) : LayerSearch δ := ⟨M, H, S, query, ef, layer, filter, true⟩

/-- The descent of `k_nn_search_generic` through the upper layers. -/
def descend : ℕ → ℕ → Option ℕ
  | 0, entry => some entry
  | level + 1, entry => do
    let found ← (queryLayer M H S query filter 1 (level + 1)).searchLayer entry
    descend level (found.head?.elim entry Prod.fst)

/-- `k_nn_search_generic`; none if a loop does not end. -/
def kNnSearch (k ef : ℕ) : Option (Except IndexError (List (ℕ × δ))) :=
  if S.dimension ≠ 0 ∧ query.length ≠ S.dimension then
    some (.error (.dimensionMismatch query.length S.dimension))
  else
    match S.entryPoint with
    | none => some (.ok [])
    | some (entry, level) => do
      let entry ← descend M H S query filter level entry
      let found ← (queryLayer M H S query filter ef 0).searchLayer entry
      return .ok (found.take k)

/-- The node that the search of layer 0 starts from, if it gets there. -/
def layerZeroEntry : Option ℕ :=
  if S.dimension ≠ 0 ∧ query.length ≠ S.dimension then none
  else S.entryPoint.bind fun (entry, level) => descend M H S query filter level entry

variable {S} in
theorem descend_spec (level : ℕ) {entry : ℕ} (hentry : entry < S.bound) :
    ∃ e, descend M H S query filter level entry = some e ∧ e < S.bound := by
  induction level generalizing entry with
  | zero => exact ⟨entry, rfl, hentry⟩
  | succ level ih =>
    obtain ⟨found, hfound, -, hsound, -⟩ :=
      LayerSearch.searchLayer_spec (L := queryLayer M H S query filter 1 (level + 1)) hentry
    have hlt : found.head?.elim entry Prod.fst < S.bound := by
      cases found with
      | nil => exact hentry
      | cons p found => exact (hsound p List.mem_cons_self).2.1
    obtain ⟨e, he, hebound⟩ := ih hlt
    refine ⟨e, ?_, hebound⟩
    rw [descend, hfound]
    exact he

variable {M H S query filter}

variable {e k : ℕ}

theorem layerZeroEntry_lt (he : layerZeroEntry M H S query filter = some e) : e < S.bound := by
  unfold layerZeroEntry at he
  split_ifs at he
  obtain ⟨⟨entry, level⟩, hentry, hdescend⟩ := Option.bind_eq_some_iff.mp he
  obtain ⟨e', he', hlt⟩ := descend_spec M H query filter level (S.entryPoint_lt _ hentry)
  cases he'.symm.trans hdescend
  exact hlt

theorem kNnSearch_eq {ef : ℕ} (he : layerZeroEntry M H S query filter = some e) :
    kNnSearch M H S query filter k ef =
      ((queryLayer M H S query filter ef 0).searchLayer e).map fun found =>
        .ok (found.take k) := by
  unfold layerZeroEntry at he
  split_ifs at he with hdim
  obtain ⟨⟨entry, level⟩, hentry, hdescend⟩ := Option.bind_eq_some_iff.mp he
  have hdescend : descend M H S query filter level entry = some e := hdescend
  rw [kNnSearch, if_neg hdim, hentry]
  dsimp only
  rw [hdescend, Option.map_eq_bind]
  rfl

/-- Only a source without nodes keeps a query of its dimension from layer 0. -/
theorem entryPoint_eq_none (hdim : ¬ (S.dimension ≠ 0 ∧ query.length ≠ S.dimension))
    (he : layerZeroEntry M H S query filter = none) : S.entryPoint = none := by
  rw [layerZeroEntry, if_neg hdim] at he
  cases hentry : S.entryPoint with
  | none => rfl
  | some p =>
    obtain ⟨entry, level⟩ := p
    obtain ⟨e, hdescend, -⟩ := descend_spec M H query filter level (S.entryPoint_lt _ hentry)
    simp [hentry, hdescend] at he

theorem kNnSearch_of_entryPoint_eq_none {ef : ℕ}
    (hdim : ¬ (S.dimension ≠ 0 ∧ query.length ≠ S.dimension)) (hnone : S.entryPoint = none) :
    kNnSearch M H S query filter k ef = some (.ok []) := by
  rw [kNnSearch, if_neg hdim, hnone]

/-- The search ends on every source, query, filter and beam width. -/
theorem kNnSearch_terminates (k ef : ℕ) :
    ∃ r, kNnSearch M H S query filter k ef = some r := by
  by_cases hdim : S.dimension ≠ 0 ∧ query.length ≠ S.dimension
  · exact ⟨_, if_pos hdim⟩
  cases he : layerZeroEntry M H S query filter with
  | none => exact ⟨_, kNnSearch_of_entryPoint_eq_none hdim (entryPoint_eq_none hdim he)⟩
  | some e =>
    obtain ⟨found, hfound, -⟩ := LayerSearch.searchLayer_spec
      (L := queryLayer M H S query filter ef 0) (layerZeroEntry_lt he)
    exact ⟨_, by rw [kNnSearch_eq he, hfound]; rfl⟩

end

/-! ### Filters that few nodes pass -/

section
variable {δ : Type} [LinearOrder δ]

/-- Distances in a total order. -/
def orderedMetric (eval : Vector → Vector → δ) (infinity : δ) : Metric δ :=
  ⟨eval, infinity, fun a b => decide (a < b)⟩

theorem searchLayer_sorted {L : LayerSearch δ} {eval : Vector → Vector → δ} {infinity : δ}
    (hmetric : L.metric = orderedMetric eval infinity) {entry : ℕ} {found : List (ℕ × δ)}
    (hfound : L.searchLayer entry = some found) : found.Pairwise fun a b => a.2 ≤ b.2 := by
  obtain ⟨s, -, rfl⟩ := Option.map_eq_some_iff.mp hfound
  have htotal : Std.Total fun a b : ℕ × δ => (!L.metric.lt b.2 a.2) = true :=
    ⟨fun a b => by simpa [hmetric, orderedMetric] using le_total a.2 b.2⟩
  have htrans : IsTrans (ℕ × δ) fun a b => (!L.metric.lt b.2 a.2) = true :=
    ⟨fun a b c => by simpa [hmetric, orderedMetric] using fun h₁ h₂ => le_trans h₁ h₂⟩
  have hsorted : (L.output s).Pairwise fun a b => (!L.metric.lt b.2 a.2) = true :=
    List.pairwise_insertionSort _ _
  exact hsorted.imp fun h => by simpa [hmetric, orderedMetric] using h

variable (eval : Vector → Vector → δ) (infinity : δ) (H : Heaps δ) (S : NodeSource)
  (query : Vector) (filter : ℕ → Bool)

/-- A filter that admits few of the nodes reached is answered with the nearest of
all of them, however many other nodes lie on the paths. -/
theorem selective_filter_exhaustive (k : ℕ) {ef e : ℕ} (hef : 1 ≤ ef)
    (he : layerZeroEntry (orderedMetric eval infinity) H S query filter = some e)
    {A : Finset ℕ} (hA : ∀ v, v ∈ A ↔ S.Reaches 0 e v ∧ (S.vector v).isSome ∧
      S.isDeleted v = false ∧ filter (S.rowId v) = true)
    (hcount : 100 * A.card / ef < 95) :
    ∃ hits, kNnSearch (orderedMetric eval infinity) H S query filter k ef = some (.ok hits) ∧
      hits.length = min k A.card ∧ (hits.map Prod.fst).Nodup ∧
      (∀ p ∈ hits, p.1 ∈ A ∧ ∃ v, S.vector p.1 = some v ∧ p.2 = eval query v) ∧
      hits.Pairwise (fun p q => p.2 ≤ q.2) ∧
      ∀ p ∈ hits, ∀ w ∈ A, w ∉ hits.map Prod.fst →
        ∀ v, S.vector w = some v → p.2 ≤ eval query v := by
  obtain ⟨found, hfound, hnodup, hsound, -, hended⟩ := LayerSearch.searchLayer_spec
    (L := queryLayer (orderedMetric eval infinity) H S query filter ef 0) (layerZeroEntry_lt he)
  have hsorted := searchLayer_sorted rfl hfound
  have hadmits : ∀ v, (queryLayer (orderedMetric eval infinity) H S query filter ef 0).admits v =
      true ↔ (S.vector v).isSome ∧ S.isDeleted v = false ∧ filter (S.rowId v) = true := by
    intro v
    simp [LayerSearch.admits, queryLayer, and_assoc]
  have hmem : ∀ p ∈ found, p.1 ∈ A := fun p hp =>
    (hA p.1).mpr ⟨(hsound p hp).1, (hadmits p.1).mp (hsound p hp).2.2.1⟩
  have hdist : ∀ p ∈ found, ∃ v, S.vector p.1 = some v ∧ p.2 = eval query v := by
    intro p hp
    obtain ⟨v, hv⟩ := Option.isSome_iff_exists.mp ((hA p.1).mp (hmem p hp)).2.1
    refine ⟨v, hv, (hsound p hp).2.2.2.trans ?_⟩
    simp [LayerSearch.distanceTo, queryLayer, hv, orderedMetric]
  -- the result cannot get so long that one of the two exits is taken
  have hle : found.length ≤ A.card := by
    have hsub : (found.map Prod.fst).toFinset ⊆ A := by
      intro v hv
      obtain ⟨p, hp, rfl⟩ := List.mem_map.mp (List.mem_toFinset.mp hv)
      exact hmem p hp
    have hcard := Finset.card_le_card hsub
    rwa [List.toFinset_card_of_nodup hnodup, List.length_map] at hcard
  have hall : ∀ v ∈ A, v ∈ found.map Prod.fst := by
    rcases hended with hlong | hall
    · have hlt := (Nat.div_lt_iff_lt_mul (by omega)).mp hcount
      change 95 * ef ≤ _ at hlong
      omega
    · exact fun v hv => hall v ((hA v).mp hv).1 ((hadmits v).mpr ((hA v).mp hv).2)
  have hlen : found.length = A.card := by
    refine Nat.le_antisymm hle ?_
    have hsub : A ⊆ (found.map Prod.fst).toFinset := fun v hv =>
      List.mem_toFinset.mpr (hall v hv)
    have hcard := Finset.card_le_card hsub
    rwa [List.toFinset_card_of_nodup hnodup, List.length_map] at hcard
  refine ⟨found.take k, by rw [kNnSearch_eq he, hfound]; rfl, ?_, ?_, ?_, ?_, ?_⟩
  · rw [List.length_take, hlen]
  · rw [List.map_take]
    exact hnodup.sublist (List.take_sublist _ _)
  · intro p hp
    exact ⟨hmem p (List.mem_of_mem_take hp), hdist p (List.mem_of_mem_take hp)⟩
  · exact hsorted.sublist (List.take_sublist _ _)
  · intro p hp w hw hnot v hv
    obtain ⟨q, hq, rfl⟩ := List.mem_map.mp (hall w hw)
    have hdrop : q ∈ found.drop k := by
      rw [← List.take_append_drop k found, List.mem_append] at hq
      exact hq.resolve_left fun hmem => hnot (List.mem_map_of_mem hmem)
    obtain ⟨v', hv', hq2⟩ := hdist q hq
    cases hv.symm.trans hv'
    rw [← hq2]
    rw [← List.take_append_drop k found, List.pairwise_append] at hsorted
    exact hsorted.2.2 p hp q hdrop

end

/-- Five nodes in a row, each with its number as its vector. -/
def rowOfFive : NodeSource where
  entryPoint := some (0, 0)
  level node := if node < 5 then some 0 else none
  neighbors node _ := if node < 4 then [node + 1] else []
  vector node := if h : node < 5 then some [⟨false, node, by omega⟩] else none
  rowId node := node
  dimension := 1
  isDeleted _ := false
  bound := 5
  entryPoint_lt e he := by
    cases he
    decide
  neighbors_lt node level n hn := by
    split_ifs at hn with hlt
    · rw [List.mem_singleton.mp hn]
      omega
    · cases hn

/-- Lists as heaps. -/
def listHeaps {δ : Type} [DecidableEq δ] (lt : δ → δ → Bool) : Heaps δ where
  nearest := listHeap fun a b => lt a.dist b.dist
  farthest := listHeap fun a b => lt b.dist a.dist

/-- Only the far end of the row passes the filter. -/
theorem selective_filter_exhaustive_rowOfFive :
    ∃ hits, kNnSearch (orderedMetric (fun _ v => (v.headD (Binary.zero 8 23)).magnitude) 0)
        (listHeaps fun a b => decide (a < b)) rowOfFive [Binary.zero 8 23] (· == 4) 3 2 =
          some (.ok hits) ∧ hits.length = 1 ∧ ∀ p ∈ hits, p.1 = 4 := by
  have hedge : ∀ v, v < 4 → rowOfFive.Edge 0 v (v + 1) := by
    intro v hv
    refine ⟨⟨0, if_pos (by omega), Nat.le_refl _⟩, ?_⟩
    simp [rowOfFive, hv]
  have hpath : rowOfFive.Reaches 0 0 4 :=
    (((Relation.ReflTransGen.single (hedge 0 (by decide))).tail (hedge 1 (by decide))).tail
      (hedge 2 (by decide))).tail (hedge 3 (by decide))
  have hA : ∀ v, v ∈ ({4} : Finset ℕ) ↔ rowOfFive.Reaches 0 0 v ∧ (rowOfFive.vector v).isSome ∧
      rowOfFive.isDeleted v = false ∧ (rowOfFive.rowId v == 4) = true := by
    intro v
    rw [Finset.mem_singleton]
    constructor
    · rintro rfl
      exact ⟨hpath, rfl, rfl, rfl⟩
    · rintro ⟨-, -, -, hfilter⟩
      simpa [rowOfFive] using hfilter
  obtain ⟨hits, hsearch, hlen, -, hmem, -⟩ := selective_filter_exhaustive
    (fun _ v => (v.headD (Binary.zero 8 23)).magnitude) 0
    (listHeaps fun a b => decide (a < b)) rowOfFive [Binary.zero 8 23] (· == 4) 3
    (by decide : 1 ≤ 2) rfl hA (by decide)
  exact ⟨hits, hsearch, hlen, fun p hp => Finset.mem_singleton.mp (hmem p hp).1⟩

end StrataDB.Index
