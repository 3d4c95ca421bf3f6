import StrataDB.Index.LiveSet
import StrataDB.Index.Search
import StrataDB.Index.Selectors
import StrataDB.Lib.List

/-! Search over a set of segments (`index/src/segment_set.rs`): each part is
searched on its own, and the nearest rows of all parts are kept by a selector,
one kind for small result sets and one for large. -/

namespace StrataDB.Index

open Lib Arrow

/-- Third-party and machine arithmetic the search is parametric in: the Euclidean
distance (`anndists`), the product of two floats and the heaps. -/
structure Distances where
  l2 : Vector → Vector → F32
  mul : F32 → F32 → F32
  heaps : Heaps F32

/-- `L2`, with the comparison of floats. -/
def Distances.metric (D : Distances) : Metric F32 where
  eval := D.l2
  infinity := ⟨false, Binary.infinity 8 23, by decide⟩
  lt := Binary.lt

/-! ### A segment as a source of nodes -/

/-- All ids that occur in the graph. -/
def Graph.ids (g : Graph) : List ℕ := g.entryPoint.toList ++ g.layers.flatten.flatten

namespace Segment

/-- `neighbors_into`: nothing past the last layer or the last node. -/
def neighbors (s : Segment) (node level : ℕ) : List ℕ :=
  ((s.graph.layers[level]?).bind fun layer => layer[node]?).getD []

/-- `entry_point`, with the level of the node. -/
def entryPoint (s : Segment) : Option (ℕ × ℕ) :=
  s.graph.entryPoint.bind fun entry => (s.graph.levels[entry]?).map fun level => (entry, level)

variable {s : Segment}

theorem mem_ids_of_neighbors {node level n : ℕ} (h : n ∈ s.neighbors node level) :
    n ∈ s.graph.ids := by
  unfold neighbors at h
  cases hlayer : s.graph.layers[level]? with
  | none => simp [hlayer] at h
  | some layer =>
    cases hnode : layer[node]? with
    | none => simp [hlayer, hnode] at h
    | some ns =>
      simp only [hlayer, hnode, Option.bind_some, Option.getD_some] at h
      refine List.mem_append_right _ (List.mem_flatten.mpr ⟨ns, ?_, h⟩)
      exact List.mem_flatten.mpr ⟨layer, List.mem_of_getElem? hlayer, List.mem_of_getElem? hnode⟩

theorem mem_ids_of_entryPoint {e : ℕ × ℕ} (h : e ∈ s.entryPoint) : e.1 ∈ s.graph.ids := by
  obtain ⟨entry, hentry, hlevel⟩ := Option.bind_eq_some_iff.mp h
  obtain ⟨level, -, rfl⟩ := Option.map_eq_some_iff.mp hlevel
  exact List.mem_append_left _ (by simp [hentry])

/-- The implementation of `NodeSource` for a segment's reader. A row id past the
last is replaced by the greatest machine integer. -/
def source (s : Segment) : NodeSource where
  entryPoint := s.entryPoint
  level node := s.graph.levels[node]?
  neighbors := s.neighbors
  vector node := s.vectors[node]?
  rowId node := s.rowIds[node]?.getD (2 ^ 64 - 1)
  dimension := s.dimension
  isDeleted _ := false
  bound := s.graph.ids.foldl max 0 + 1
  entryPoint_lt _ he :=
    Nat.lt_succ_of_le ((LiveSet.le_foldl_max 0).2 _ (mem_ids_of_entryPoint he))
  neighbors_lt _ _ _ hn :=
    Nat.lt_succ_of_le ((LiveSet.le_foldl_max 0).2 _ (mem_ids_of_neighbors hn))

end Segment

/-! ### The parts of a set -/

/-- `VectorMatch`. -/
structure VectorMatch where
  rowId : ℕ
  squaredDistance : F32
  deriving DecidableEq

section
variable {ζ : Type} (D : Distances) (query : Vector) (k ef : ℕ) (filter : ℕ → Bool)
  (shouldScan : ζ → Bool)

/-- The rows one part has found. -/
def scoredRows (s : Segment) (raw : List (ℕ × F32)) : List Scored :=
  raw.filterMap fun p => (s.rowIds[p.1]?).map fun rowId => (rowId, p.2)

/-- The loop of `fan_out` over the parts; none if a search does not end. -/
def considerParts : List (SegmentPart ζ) → TopKSelector →
    Option (Except IndexError TopKSelector)
  | [], selected => some (.ok selected)
  | part :: rest, selected =>
    if shouldScan part.2 then
      match kNnSearch D.metric D.heaps part.1.source query filter k ef with
      | none => none
      | some (.error e) => some (.error e)
      | some (.ok raw) =>
        considerParts rest ((scoredRows part.1 raw).foldl TopKSelector.consider selected)
    else considerParts rest selected

/-- `fan_out`. -/
def fanOut (parts : List (SegmentPart ζ)) : Option (Except IndexError (List VectorMatch)) :=
  (considerParts D query k ef filter shouldScan parts (.new k)).map fun selected =>
    selected.map fun selected => selected.intoSorted.map fun p => ⟨p.1, D.mul p.2 p.2⟩

end

/-! ### What the parts find -/

section
variable {ζ : Type} (D : Distances) (query : Vector) (k ef : ℕ) (filter : ℕ → Bool)

/-- The rows one part contributes. -/
def foundRows (s : Segment) : List Scored :=
  match kNnSearch D.metric D.heaps s.source query filter k ef with
  | some (.ok raw) => scoredRows s raw
  | _ => []

/-- The row is in the segment and passes the filter, at this distance. -/
def ScoredBy (s : Segment) (p : Scored) : Prop :=
  ∃ (i : ℕ) (v : Vector), s.rowIds[i]? = some p.1 ∧ s.vectors[i]? = some v ∧
    filter p.1 = true ∧ p.2 = D.l2 query v

/-- Every node of the segment reaches every other in the lowest layer. -/
def Segment.Connected (s : Segment) : Prop :=
  ∀ u < s.nodeCount, ∀ v < s.nodeCount, s.source.Reaches 0 u v

variable {D query k ef filter}

variable {s : Segment} {raw : List (ℕ × F32)} {n : ℕ}

theorem scoredRows_eq (h : ∀ p ∈ raw, p.1 < s.rowIds.length) :
    scoredRows s raw = raw.map fun p => (s.rowIds[p.1]?.getD 0, p.2) := by
  unfold scoredRows
  rw [← List.filterMap_eq_map]
  refine List.filterMap_congr fun p hp => ?_
  simp [List.getElem?_eq_getElem (h p hp)]

theorem nodup_scoredRows (hrows : s.rowIds.Nodup) (hraw : (raw.map Prod.fst).Nodup)
    (h : ∀ p ∈ raw, p.1 < s.rowIds.length) : ((scoredRows s raw).map Prod.fst).Nodup := by
  have hmap : (scoredRows s raw).map Prod.fst =
      (raw.map Prod.fst).map fun i => s.rowIds[i]?.getD 0 := by
    rw [scoredRows_eq h, List.map_map, List.map_map]
    rfl
  rw [hmap]
  refine hraw.map_on fun i hi j hj heq => ?_
  obtain ⟨p, hp, rfl⟩ := List.mem_map.mp hi
  obtain ⟨q, hq, rfl⟩ := List.mem_map.mp hj
  rw [List.getElem?_eq_getElem (h p hp), List.getElem?_eq_getElem (h q hq)] at heq
  exact (hrows.getElem_inj_iff).mp heq

/-- The nodes whose rows pass a filter are as many as the rows. -/
theorem length_filter_le {filter : ℕ → Bool} {nodes : List ℕ}
    (h : ∀ i rowId, s.rowIds[i]? = some rowId → filter rowId = true → i ∈ nodes) :
    (s.rowIds.filter filter).length ≤ nodes.length := by
  have hrows : s.rowIds = (List.range s.rowIds.length).map fun i => s.rowIds[i]?.getD 0 := by
    refine List.ext_getElem (by simp) fun i hi hi' => ?_
    simp [hi]
  have hlen : (s.rowIds.filter filter).length =
      ((List.range s.rowIds.length).filter fun i => filter (s.rowIds[i]?.getD 0)).length := by
    conv_lhs => rw [hrows, List.filter_map, List.length_map]
    rfl
  rw [hlen]
  refine ((List.nodup_range.filter _).subperm fun i hi => ?_).length_le
  obtain ⟨hrange, hpass⟩ := List.mem_filter.mp hi
  have hi := List.mem_range.mp hrange
  rw [List.getElem?_eq_getElem hi] at hpass
  exact h i _ (List.getElem?_eq_getElem hi) hpass

theorem Graph.Encodable.ids_lt {graph : Graph} (h : graph.Encodable n) :
    ∀ i ∈ graph.ids, i < n := by
  intro i hi
  rcases List.mem_append.mp hi with hentry | hlayer
  · obtain ⟨p, hp, heq⟩ := h.entryPoint
    rw [heq, Option.toList_some, List.mem_singleton] at hentry
    omega
  · obtain ⟨ns, hns, hi⟩ := List.mem_flatten.mp hlayer
    obtain ⟨layer, hlayer, hns⟩ := List.mem_flatten.mp hns
    have hall := List.all_eq_true.mp (List.all_eq_true.mp (List.all_eq_true.mp h.neighbours
      layer hlayer) ns hns) i hi
    exact of_decide_eq_true hall

theorem foldl_max_lt {ids : List ℕ} {start : ℕ} (hstart : start < n) (h : ∀ i ∈ ids, i < n) :
    ids.foldl max start < n := by
  induction ids generalizing start with
  | nil => exact hstart
  | cons i ids ih =>
    rw [List.forall_mem_cons] at h
    exact ih (max_lt hstart h.1) h.2

/-- In a segment that was written no id is past the last node. -/
theorem Segment.bound_le (h : s.graph.Encodable s.nodeCount) : s.source.bound ≤ s.nodeCount := by
  obtain ⟨p, hp, -⟩ := h.entryPoint
  exact foldl_max_lt (Nat.zero_lt_of_lt hp) h.ids_lt

variable (D k ef filter) in
/-- The rows a search of one part returns, all of those that pass the filter unless
it stopped at nearly as many as its beam is wide. -/
theorem kNnSearch_part (hlen : s.vectors.length = s.rowIds.length) (hnodup : s.rowIds.Nodup)
    (hdim : query.length = s.dimension) :
    ∃ raw, kNnSearch D.metric D.heaps s.source query filter k ef = some (.ok raw) ∧
      ((scoredRows s raw).map Prod.fst).Nodup ∧
      (∀ p ∈ scoredRows s raw, ScoredBy D query filter s p) ∧
      (s.Connected → s.graph.Encodable s.nodeCount →
        min k (min ((95 * ef + 99) / 100) (s.rowIds.filter filter).length) ≤
          (scoredRows s raw).length) ∧
      (scoredRows s raw).length ≤ max ef 1 := by
  have hmatch : ¬ (s.source.dimension ≠ 0 ∧ query.length ≠ s.source.dimension) := fun h => h.2 hdim
  cases he : layerZeroEntry D.metric D.heaps s.source query filter with
  | none =>
    have hentry := entryPoint_eq_none hmatch he
    refine ⟨[], kNnSearch_of_entryPoint_eq_none hmatch hentry, List.nodup_nil, nofun,
      fun _ hencodable => ?_, Nat.zero_le _⟩
    obtain ⟨p, hp, hgraph⟩ := hencodable.entryPoint
    have hlevel : p < s.graph.levels.length := hencodable.levels.1 ▸ hp
    simp [Segment.source, Segment.entryPoint, hgraph, hlevel] at hentry
  | some e =>
    obtain ⟨found, hfound, hids, hsound, hwidth, hended⟩ := LayerSearch.searchLayer_spec
      (L := queryLayer D.metric D.heaps s.source query filter ef 0) (layerZeroEntry_lt he)
    have hadmits : ∀ i, (queryLayer D.metric D.heaps s.source query filter ef 0).admits i = true ↔
        i < s.rowIds.length ∧ filter (s.rowIds[i]?.getD (2 ^ 64 - 1)) = true := by
      intro i
      simp [LayerSearch.admits, queryLayer, Segment.source, hlen]
    have hlt : ∀ p ∈ found.take k, p.1 < s.rowIds.length := fun p hp =>
      ((hadmits p.1).mp (hsound p (List.mem_of_mem_take hp)).2.2.1).1
    refine ⟨found.take k, by rw [kNnSearch_eq he, hfound]; rfl, ?_, ?_, ?_, ?_⟩
    · refine nodup_scoredRows hnodup ?_ hlt
      rw [List.map_take]
      exact hids.sublist (List.take_sublist ..)
    · rw [scoredRows_eq hlt]
      intro p hp
      obtain ⟨q, hq, rfl⟩ := List.mem_map.mp hp
      obtain ⟨-, -, hq', hdist⟩ := hsound q (List.mem_of_mem_take hq)
      obtain ⟨hi, hpass⟩ := (hadmits q.1).mp hq'
      have hv : q.1 < s.vectors.length := hlen ▸ hi
      rw [List.getElem?_eq_getElem hi, Option.getD_some] at hpass
      refine ⟨q.1, s.vectors[q.1], ?_, List.getElem?_eq_getElem hv, ?_, ?_⟩
      · simp [List.getElem?_eq_getElem hi]
      · simpa [List.getElem?_eq_getElem hi] using hpass
      · rw [hdist]
        simp [LayerSearch.distanceTo, queryLayer, Segment.source, hv, Distances.metric]
    · intro hconnected hencodable
      rw [scoredRows_eq hlt, List.length_map, List.length_take]
      have hbound := Segment.bound_le hencodable
      have he' : e < s.nodeCount := (layerZeroEntry_lt he).trans_le hbound
      rcases hended with hlong | hall
      · change 95 * ef ≤ _ at hlong
        omega
      · have hcount : (s.rowIds.filter filter).length ≤ (found.map Prod.fst).length := by
          refine length_filter_le fun i rowId hrow hpass => ?_
          obtain ⟨hi, -⟩ := List.getElem?_eq_some_iff.mp hrow
          refine hall i (hconnected e he' i hi) ((hadmits i).mpr ⟨hi, ?_⟩)
          rwa [hrow, Option.getD_some]
        rw [List.length_map] at hcount
        omega
    · change found.length ≤ max ef 1 at hwidth
      rw [scoredRows_eq hlt, List.length_map, List.length_take]
      omega

/-- The parts of a set of segments, as a search relies on them. -/
structure Searchable (query : Vector) (parts : List (SegmentPart ζ)) : Prop where
  vectors : ∀ part ∈ parts, part.1.vectors.length = part.1.rowIds.length
  dimension : ∀ part ∈ parts, query.length = part.1.dimension
  nodup : (parts.flatMap fun part => part.1.rowIds).Nodup

namespace Searchable

variable {parts : List (SegmentPart ζ)}

variable {part : SegmentPart ζ}

theorem rowIds_nodup (h : Searchable query parts) (hpart : part ∈ parts) : part.1.rowIds.Nodup :=
  (List.nodup_flatMap.mp h.nodup).1 part hpart

variable (D k ef filter)

theorem part_spec (h : Searchable query parts) (hpart : part ∈ parts) :
    (∃ raw, kNnSearch D.metric D.heaps part.1.source query filter k ef = some (.ok raw) ∧
      foundRows D query k ef filter part.1 = scoredRows part.1 raw) ∧
      ((foundRows D query k ef filter part.1).map Prod.fst).Nodup ∧
      (∀ p ∈ foundRows D query k ef filter part.1, ScoredBy D query filter part.1 p) ∧
      (part.1.Connected → part.1.graph.Encodable part.1.nodeCount →
        min k (min ((95 * ef + 99) / 100) (part.1.rowIds.filter filter).length) ≤
          (foundRows D query k ef filter part.1).length) ∧
      (foundRows D query k ef filter part.1).length ≤ max ef 1 := by
  obtain ⟨raw, hraw, hspec⟩ := kNnSearch_part D k ef filter
    (h.vectors part hpart) (h.rowIds_nodup hpart) (h.dimension part hpart)
  have hfound : foundRows D query k ef filter part.1 = scoredRows part.1 raw := by
    rw [foundRows, hraw]
  rw [hfound]
  exact ⟨⟨raw, hraw, rfl⟩, hspec⟩

/-- A part finds no more rows than it has that pass the filter. -/
theorem length_foundRows_le (h : Searchable query parts) (hpart : part ∈ parts) :
    (foundRows D query k ef filter part.1).length ≤ (part.1.rowIds.filter filter).length := by
  obtain ⟨-, hnodup, hscored, -⟩ := h.part_spec D k ef filter hpart
  rw [← List.length_map (f := Prod.fst)]
  refine (hnodup.subperm fun rowId hrow => ?_).length_le
  obtain ⟨p, hp, rfl⟩ := List.mem_map.mp hrow
  obtain ⟨i, v, hi, -, hpass, -⟩ := hscored p hp
  exact List.mem_filter.mpr ⟨List.mem_of_getElem? hi, hpass⟩

/-- All that the parts have found is offered to the selector. -/
theorem considerParts_eq (h : Searchable query parts) (shouldScan : ζ → Bool)
    (selected : TopKSelector) :
    considerParts D query k ef filter shouldScan parts selected =
      some (.ok (((parts.filter fun part => shouldScan part.2).flatMap fun part =>
        foundRows D query k ef filter part.1).foldl TopKSelector.consider selected)) := by
  induction parts generalizing selected with
  | nil => rfl
  | cons part parts ih =>
    have hrest : Searchable query parts :=
      ⟨fun p hp => h.vectors p (List.mem_cons_of_mem _ hp),
        fun p hp => h.dimension p (List.mem_cons_of_mem _ hp),
        (List.nodup_append.mp (List.flatMap_cons ▸ h.nodup)).2.1⟩
    obtain ⟨⟨raw, hraw, hfound⟩, -⟩ :=
      h.part_spec D k ef filter (List.mem_cons_self : part ∈ part :: parts)
    rw [considerParts, List.filter_cons]
    split_ifs with hscan
    · rw [hraw, List.flatMap_cons, List.foldl_append, hfound]
      exact ih hrest _
    · exact ih hrest selected

theorem nodup_foundRows (h : Searchable query parts) (shouldScan : ζ → Bool) :
    (((parts.filter fun part => shouldScan part.2).flatMap fun part =>
      foundRows D query k ef filter part.1).map Prod.fst).Nodup := by
  rw [List.map_flatMap, List.nodup_flatMap]
  have hmem : ∀ part ∈ parts.filter fun part => shouldScan part.2, part ∈ parts := fun _ =>
    List.mem_of_mem_filter
  refine ⟨fun part hpart => (h.part_spec D k ef filter (hmem part hpart)).2.1, ?_⟩
  -- the rows of different parts are different
  have hdisjoint := ((List.nodup_flatMap.mp h.nodup).2.sublist
    (List.filter_sublist (p := fun part => shouldScan part.2)))
  refine hdisjoint.imp_of_mem fun {a b} ha hb hab rowId hrow hrow' => ?_
  have hin : ∀ part ∈ parts.filter fun part => shouldScan part.2,
      rowId ∈ (foundRows D query k ef filter part.1).map Prod.fst → rowId ∈ part.1.rowIds := by
    intro part hpart hrow
    obtain ⟨p, hp, rfl⟩ := List.mem_map.mp hrow
    obtain ⟨i, v, hi, -⟩ := (h.part_spec D k ef filter (hmem part hpart)).2.2.1 p hp
    exact List.mem_of_getElem? hi
  exact hab (hin a ha hrow) (hin b hb hrow')

/-- Parts that would find nothing need not be read. -/
theorem fanOut_unpruned (h : Searchable query parts) {shouldScan : ζ → Bool}
    (hskip : ∀ part ∈ parts, shouldScan part.2 = false →
      foundRows D query k ef filter part.1 = []) :
    fanOut D query k ef filter shouldScan parts =
      fanOut D query k ef filter (fun _ => true) parts := by
  rw [fanOut, fanOut, h.considerParts_eq, h.considerParts_eq, flatMap_filter_of_nil hskip,
    List.filter_true]

/-- What `fan_out` returns: the best of all that the scanned parts have found. -/
theorem fanOut_spec (h : Searchable query parts) (shouldScan : ζ → Bool) :
    ∃ scored, fanOut D query k ef filter shouldScan parts =
        some (.ok (scored.map fun p => ⟨p.1, D.mul p.2 p.2⟩)) ∧
      Best Prod.fst Scored.rank k ((parts.filter fun part => shouldScan part.2).flatMap fun part =>
        foundRows D query k ef filter part.1) scored :=
  ⟨_, by rw [fanOut, h.considerParts_eq]; rfl, TopKSelector.best_intoSorted k _⟩

end Searchable

end

end StrataDB.Index
