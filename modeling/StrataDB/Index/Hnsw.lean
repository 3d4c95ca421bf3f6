import Mathlib.Data.List.GetD
import Mathlib.Order.Lattice
import StrataDB.Index.Search

/-! The index under construction (`index/src/graph.rs`, `slot_array.rs`, `node.rs`,
`hnsw.rs`), with one insertion at a time. Each node has a fixed array of slots in every
layer up to its level, one more than the layer may keep; an edge is claimed in both
nodes, and a node that has got one too many is pruned back.

The level of a node and the distances are given. Division of a distance by alpha is
`relax`. -/

namespace StrataDB.Index

open Lib Arrow

namespace Hnsw

/-! ### Slot arrays -/

/-- `SlotArray`; `none` is the sentinel `EMPTY`. -/
abbrev Slots := List (Option ℕ)

namespace Slots

/-- `claim`: the first empty slot. -/
def claim (id : ℕ) : Slots → Option Slots
  | [] => none
  | none :: rest => some (some id :: rest)
  | some x :: rest => (claim id rest).map (some x :: ·)

/-- `clear_matching`. -/
def clearMatching (toRemove : List ℕ) (slots : Slots) : Slots :=
  slots.map fun slot => if slot.any (toRemove.contains ·) then none else slot

/-- `occupied_into`. -/
def occupied (slots : Slots) : List ℕ := slots.filterMap id

end Slots

/-! ### Nodes -/

/-- The parameters of `Graph::insert` that are the same for every row. -/
structure Config (δ : Type) where
  metric : Metric δ
  heaps : Heaps δ
  relax : δ → δ
  m : ℕ
  mmax0 : ℕ
  mmax : ℕ
  efConstruction : ℕ

/-- `HnswIndex::new`, where the number of connections is at most 256. -/
def Config.new {δ : Type} (metric : Metric δ) (heaps : Heaps δ) (relax : δ → δ)
    (maxConnections efConstruction : ℕ) : Config δ where
  metric
  heaps
  relax
  m := max maxConnections 1
  mmax0 := max maxConnections 1 * 2
  mmax := max maxConnections 1
  efConstruction

/-- How many neighbours a node may keep in a layer. -/
def Config.capacity {δ : Type} (C : Config δ) (lc : ℕ) : ℕ := if lc = 0 then C.mmax0 else C.mmax

/-- `layer_slot_count`. -/
def Config.layerSlotCount {δ : Type} (C : Config δ) (lc : ℕ) : ℕ := C.capacity lc + 1

/-- `LEVEL_MASK`. -/
def levelMask : ℕ := 255

structure Node where
  rowId : ℕ
  vector : Vector
  level : ℕ
  layers : List Slots
  deleted : Bool
  published : Bool
  deriving DecidableEq

/-- `Node::new`. -/
def Node.new {δ : Type} (C : Config δ) (rowId : ℕ) (vector : Vector) (level : ℕ) : Node where
  rowId
  vector
  level
  layers := (List.range (level + 1)).map fun lc => List.replicate (C.layerSlotCount lc) none
  deleted := false
  published := false

def Node.layer (n : Node) (lc : ℕ) : Slots := n.layers.getD lc []

def Node.setLayer (n : Node) (lc : ℕ) (slots : Slots) : Node :=
  { n with layers := n.layers.set lc slots }

/-- The neighbours in a layer. -/
def Node.neighbors (n : Node) (lc : ℕ) : List ℕ := (n.layer lc).occupied

inductive InsertError
  | dimensionMismatch (queryLen expected : ℕ)
  | rowIdOutOfRange (rowId capacity : ℕ)
  | duplicateRowId (rowId : ℕ)
  | neighborShrinkDidNotConverge (rowId neighborId layer capacity attempts : ℕ)
  deriving DecidableEq

/-! ### The graph -/

/-- `Graph`. The nodes are those of the node table, in the order of their insertion. -/
structure Graph where
  nodes : List Node
  entryPoint : Option (ℕ × ℕ)
  dimension : ℕ
  deriving DecidableEq

/-- `CHUNK_SIZE`. -/
def chunkSize : ℕ := 65536

/-- `MAX_ROW_ID_CAPACITY`. -/
def maxRowIdCapacity : ℕ := 1000000000

/-- `addressable_capacity`: whole chunks. -/
def addressableCapacity : ℕ := (maxRowIdCapacity + chunkSize - 1) / chunkSize * chunkSize

namespace Graph

/-- `Graph::new`. -/
def new : Graph := ⟨[], none, 0⟩

def get (g : Graph) (rowId : ℕ) : Option Node := g.nodes.find? (·.rowId == rowId)

/-- A change of one node in place. -/
def modify (g : Graph) (rowId : ℕ) (f : Node → Node) : Graph :=
  { g with nodes := g.nodes.map fun n => if n.rowId = rowId then f n else n }

/-- The slots of a node in a layer, written anew. -/
def setLayer (g : Graph) (owner lc : ℕ) (slots : Slots) : Graph :=
  g.modify owner fun n => n.setLayer lc slots

/-- Every id in the graph, as a node, the entry point or a neighbour. -/
def ids (g : Graph) : List ℕ :=
  g.nodes.map Node.rowId ++ g.entryPoint.toList.map Prod.fst ++
    g.nodes.flatMap fun n => n.layers.flatMap Slots.occupied

/-- More than every id. -/
def bound (g : Graph) : ℕ := g.ids.foldr (fun i b => max (i + 1) b) 0

variable {g : Graph} {i : ℕ}

theorem lt_bound (h : i ∈ g.ids) : i < g.bound := by
  unfold bound
  generalize g.ids = ids at h
  induction ids with
  | nil => cases h
  | cons j ids ih =>
    rw [List.foldr_cons]
    rcases List.mem_cons.mp h with rfl | h
    · omega
    · have := ih h
      omega

/-- The neighbours as a search sees them. -/
def neighbors (g : Graph) (rowId lc : ℕ) : List ℕ :=
  match g.get rowId with
  | some n => if lc ≤ n.level then n.neighbors lc else []
  | none => []

theorem neighbors_mem_ids {rowId lc : ℕ} (h : i ∈ g.neighbors rowId lc) : i ∈ g.ids := by
  unfold neighbors at h
  split at h
  · rename_i n hn
    split at h
    · have hmem := List.mem_of_find?_eq_some hn
      have hlayer : n.layer lc ∈ n.layers := by
        have hlt : lc < n.layers.length := by
          by_contra hge
          rw [Node.neighbors, Node.layer, List.getD_eq_default _ _ (Nat.le_of_not_lt hge)] at h
          cases h
        rw [Node.layer, List.getD_eq_getElem _ _ hlt]
        exact List.getElem_mem hlt
      refine List.mem_append_right _ (List.mem_flatMap.mpr ⟨n, hmem, ?_⟩)
      exact List.mem_flatMap.mpr ⟨_, hlayer, h⟩
    · cases h
  · cases h

/-- `NodeSource for Graph`. -/
def source (g : Graph) : NodeSource where
  entryPoint := g.entryPoint
  level rowId := (g.get rowId).map Node.level
  neighbors := g.neighbors
  vector rowId := (g.get rowId).map Node.vector
  rowId := id
  dimension := g.dimension
  isDeleted rowId := (g.get rowId).any Node.deleted
  bound := g.bound
  entryPoint_lt e he := lt_bound (by
    rw [ids, Option.mem_def.mp he]
    simp)
  neighbors_lt _ _ _ h := lt_bound (neighbors_mem_ids h)

def isPublished (g : Graph) (rowId : ℕ) : Bool := (g.get rowId).any Node.published

def markPublished (g : Graph) (rowId : ℕ) : Graph :=
  g.modify rowId fun n => { n with published := true }

/-- `check_or_establish_dimension`. -/
def checkOrEstablishDimension (g : Graph) (len : ℕ) : Except InsertError Graph :=
  let established := if g.dimension = 0 then len else g.dimension
  if established ≠ 0 ∧ len ≠ established then .error (.dimensionMismatch len established)
  else .ok { g with dimension := established }

/-- `NodeTable::insert`. -/
def insertNode (g : Graph) (n : Node) : Except InsertError Graph :=
  if addressableCapacity ≤ n.rowId then .error (.rowIdOutOfRange n.rowId addressableCapacity)
  else if (g.get n.rowId).isSome then .error (.duplicateRowId n.rowId)
  else .ok { g with nodes := g.nodes ++ [n] }

/-- `EntryPoint::advance_if_higher`. -/
def advanceIfHigher (g : Graph) (rowId level : ℕ) : Graph :=
  if g.entryPoint.all (fun e => e.2 < level) then { g with entryPoint := some (rowId, level) }
  else g

end Graph

/-! ### The choice of neighbours -/

section

variable {δ : Type} (C : Config δ)

/-- `pairwise_distance`. -/
def pairwiseDistance (g : Graph) (a b : ℕ) : δ :=
  match g.get a, g.get b with
  | some x, some y => C.metric.eval x.vector y.vector
  | _, _ => C.metric.infinity

/-- `Graph::distance_to`. -/
def distanceTo (g : Graph) (query : Vector) (rowId : ℕ) : δ :=
  (g.get rowId).elim C.metric.infinity fun n => C.metric.eval query n.vector

/-- One candidate: it is left out if a neighbour already picked dominates it. -/
def pick (m : ℕ) (pairwise : ℕ → ℕ → δ) (out : List ℕ) (c : ℕ × δ) : List ℕ :=
  if m ≤ out.length then out
  else if out.any fun picked => C.metric.lt (pairwise c.1 picked) (C.relax c.2) then out
  else out ++ [c.1]

/-- `select_neighbors_heuristic_into`. -/
def selectNeighborsHeuristic (candidates : List (ℕ × δ)) (m : ℕ) (pairwise : ℕ → ℕ → δ) :
    List ℕ :=
  (candidates.insertionSort fun a b => !C.metric.lt b.2 a.2).foldl (pick C m pairwise) []

/-! ### Edges -/

/-- `MAX_SHRINK_RETRIES`. -/
def maxShrinkRetries : ℕ := 64

inductive ShrinkStep
  | converged
  | progressed
  | stuck
  deriving DecidableEq

/-- `run_shrink_retry_loop`, with as many rounds left as are allowed. -/
def runShrinkRetryLoop {σ : Type} (step : σ → ShrinkStep × σ) :
    (left attempts : ℕ) → σ → Except ℕ Unit × σ
  | 0, attempts, s => (.error attempts, s)
  | left + 1, attempts, s =>
    match step s with
    | (.converged, s) => (.ok (), s)
    | (.stuck, s) => (.error (attempts + 1), s)
    | (.progressed, s) =>
      if left = 0 then (.error (attempts + 1), s)
      else runShrinkRetryLoop step left (attempts + 1) s

/-- The neighbours that a shrink to this capacity removes. -/
def toRemove (g : Graph) (owner : Vector) (capacity : ℕ) (occupied : List ℕ) : List ℕ :=
  let keep := selectNeighborsHeuristic C
    (occupied.map fun id => (id, distanceTo C g owner id)) capacity (pairwiseDistance C g)
  occupied.filter fun id => !keep.contains id

/-- `shrink_and_check`. -/
def shrinkAndCheck (g : Graph) (owner : Node) (lc capacity : ℕ) (occupied : List ℕ) :
    Bool × Graph :=
  let remove := toRemove C g owner.vector capacity occupied
  if remove = [] then (false, g)
  else (true, g.setLayer owner.rowId lc ((owner.layer lc).clearMatching remove))

/-- One round of the loop in `claim_and_prune`; the flag is `edge_survived`. -/
def pruneStep (owner rowId lc capacity : ℕ) (claimed : Bool) (s : Graph × Bool) :
    ShrinkStep × (Graph × Bool) :=
  match s.1.get owner with
  | none => (.converged, s)
  | some n =>
    let occupied := n.neighbors lc
    if occupied.length ≤ capacity then (.converged, (s.1, claimed || occupied.contains rowId))
    else
      match shrinkAndCheck C s.1 n lc capacity occupied with
      | (true, g) => (.progressed, (g, s.2))
      | (false, g) => (.stuck, (g, s.2))

/-- `SlotArray::claim` in a layer of a node. -/
def claimSlot (g : Graph) (owner rowId lc : ℕ) : Bool × Graph :=
  match (g.get owner).bind fun n => (n.layer lc).claim rowId with
  | some slots => (true, g.setLayer owner lc slots)
  | none => (false, g)

/-- `claim_and_prune`, with as many attempts left as are allowed. -/
def claimAndPrune (owner rowId lc capacity : ℕ) : ℕ → Graph → Except InsertError Unit × Graph
  | 0, g =>
    (.error (.neighborShrinkDidNotConverge rowId owner lc capacity maxShrinkRetries), g)
  | left + 1, g =>
    let (claimed, g) := claimSlot g owner rowId lc
    match runShrinkRetryLoop (pruneStep C owner rowId lc capacity claimed) maxShrinkRetries 0
        (g, false) with
    | (.error attempts, (g, _)) =>
      (.error (.neighborShrinkDidNotConverge rowId owner lc capacity attempts), g)
    | (.ok (), (g, edgeSurvived)) =>
      if edgeSurvived then (.ok (), g) else claimAndPrune owner rowId lc capacity left g

/-! ### Insertion -/

/-- `Graph::search_layer`. -/
def layerSearch (g : Graph) (query : Vector) (ef lc : ℕ) : LayerSearch δ where
  metric := C.metric
  heaps := C.heaps
  source := g.source
  query
  ef
  layer := lc
  filter _ := true
  saturate := false

/-- The nearest published candidate, or the entry there was. -/
def nextEntry (g : Graph) (entry : ℕ) (found : List (ℕ × δ)) : ℕ :=
  ((found.find? fun c => g.isPublished c.1).map Prod.fst).getD entry

/-- The first phase: down to the level of the new node, in so many steps. -/
def descend (g : Graph) (query : Vector) (level : ℕ) : ℕ → ℕ → Option ℕ
  | 0, entry => some entry
  | steps + 1, entry =>
    ((layerSearch C g query 1 (level + steps + 1)).searchLayer entry).bind fun found =>
      descend g query level steps (nextEntry g entry found)

/-- The edges between the new node and the ones chosen in a layer. -/
def connect (rowId lc : ℕ) : List ℕ → Graph → Except InsertError Unit × Graph
  | [], g => (.ok (), g)
  | neighbor :: rest, g =>
    if (g.get neighbor).any fun n => lc ≤ n.level then
      match claimAndPrune C neighbor rowId lc (C.capacity lc) maxShrinkRetries g with
      | (.error e, g) => (.error e, g)
      | (.ok (), g) =>
        match claimAndPrune C rowId neighbor lc (C.capacity lc) maxShrinkRetries g with
        | (.error e, g) => (.error e, g)
        | (.ok (), g) => connect rowId lc rest g
    else connect rowId lc rest g

/-- The second phase: the layers below this one, from the top. -/
def buildLayers (rowId : ℕ) (query : Vector) :
    ℕ → ℕ → Graph → Option (Except InsertError Unit × Graph)
  | 0, _, g => some (.ok (), g)
  | lc + 1, entry, g =>
    ((layerSearch C g query C.efConstruction lc).searchLayer entry).bind fun candidates =>
      let chosen := selectNeighborsHeuristic C candidates C.m (pairwiseDistance C g)
      match connect C rowId lc chosen g with
      | (.error e, g') => some (.error e, g')
      | (.ok (), g') => buildLayers rowId query lc (nextEntry g entry candidates) g'

/-- The rest of `Graph::insert`, once the node is in the table. None if it waits for an
entry point that nobody publishes. -/
def insertAt (rowId level : ℕ) (query : Vector) (g : Graph) :
    Option (Except InsertError Unit × Graph) :=
  match g.entryPoint with
  | none => some (.ok (), ({ g with entryPoint := some (rowId, level) }).markPublished rowId)
  | some (entry, entryLevel) =>
    if g.isPublished entry then
      (descend C g query level (entryLevel - level) entry).bind fun entry =>
        (buildLayers C rowId query (min entryLevel level + 1) entry g).map fun (result, g) =>
          match result with
          | .error e => (.error e, g)
          | .ok () => (.ok (), (g.markPublished rowId).advanceIfHigher rowId level)
    else none

/-- `Graph::insert` of a row with this level. -/
def insert (rowId : ℕ) (vector : Vector) (level : ℕ) (g : Graph) :
    Option (Except InsertError Unit × Graph) :=
  match g.checkOrEstablishDimension vector.length with
  | .error e => some (.error e, g)
  | .ok g =>
    let level := min level levelMask
    match g.insertNode (Node.new C rowId vector level) with
    | .error e => some (.error e, g)
    | .ok g => insertAt C rowId level vector g

/-- A row to insert: its id, its vector and its level. -/
structure Row where
  rowId : ℕ
  vector : Vector
  level : ℕ
  deriving DecidableEq

/-- Rows inserted one after another. -/
def insertAll : List Row → Graph → Option (Except InsertError Unit × Graph)
  | [], g => some (.ok (), g)
  | row :: rows, g =>
    (insert C row.rowId row.vector row.level g).bind fun (result, g) =>
      match result with
      | .error e => some (.error e, g)
      | .ok () => insertAll rows g

end

/-! ### The working index of one commit -/

def InsertError.toIndexError : InsertError → IndexError
  | .dimensionMismatch queryLen expected => .dimensionMismatch queryLen expected
  | .rowIdOutOfRange rowId capacity => .build s!"row id {rowId} out of range {capacity}"
  | .duplicateRowId rowId => .build s!"duplicate row id {rowId}"
  | .neighborShrinkDidNotConverge rowId neighborId layer _ _ =>
    .build s!"shrink of {neighborId} for {rowId} at layer {layer} did not converge"

/-- What the serializer reads of a graph over `n` ordinals. -/
def Graph.encoded (g : Graph) (n : ℕ) : Index.Graph :=
  let levels := (List.range n).filterMap g.source.level
  { levels
    entryPoint := g.entryPoint.map Prod.fst
    layers := (List.range (levels.foldr max 0 + 1)).map fun lc =>
      (List.range n).map fun i => g.neighbors i lc }

end Hnsw

/-- What the index of one commit takes from outside: the distances, the heaps, division
by alpha and the level of each ordinal. -/
structure Builder where
  metric : Metric F32
  heaps : Heaps F32
  relax : F32 → F32
  level : ℕ → ℕ

namespace Builder

/-- `new_hnsw_index`. -/
def config (B : Builder) : Hnsw.Config F32 := .new B.metric B.heaps B.relax 16 100

/-- The vectors under their ordinals. -/
def rows (B : Builder) (vectors : List Vector) : List Hnsw.Row :=
  vectors.zipIdx.map fun p => ⟨p.2, p.1, B.level p.2⟩

/-- The loop of `insert_owned` in `build_and_write_segment`. -/
def build (B : Builder) (vectors : List Vector) : Except IndexError Graph :=
  match Hnsw.insertAll B.config (B.rows vectors) .new with
  | some (.ok (), g) => .ok (g.encoded vectors.length)
  | some (.error e, _) => .error e.toIndexError
  | none => .error (.build "no entry point was published")

end Builder

end StrataDB.Index
