import StrataDB.Arrow.Batch

/-! Immutable index segments (`index/src/segment_writer.rs`,
`index/src/segment_set.rs`). A segment is kept decoded: the row ids of its local
ordinals, their vectors and the proximity graph over the ordinals. `encodeSegment`
makes the checks of the serializer. -/

namespace StrataDB.Index

open Lib Arrow

abbrev Vector := List F32

inductive IndexError
  | dimensionMismatch (queryLen expected : ℕ)
  | segmentEmpty
  | segmentTooLarge (what : String)
  | segmentCorrupt (reason : String)
  | build (reason : String)
  deriving DecidableEq

/-- Levels and entry point over local ordinals, and for each layer the
neighbours of each ordinal. -/
structure Graph where
  levels : List ℕ
  entryPoint : Option ℕ
  layers : List (List (List ℕ))
  deriving DecidableEq

structure Segment where
  rowIds : List ℕ
  dimension : ℕ
  vectors : List Vector
  graph : Graph
  deriving DecidableEq

def segmentFormatVersion : ℕ := 1

def headerLen : ℕ := 128

def vectorsAlign : ℕ := 64

def alignUp (value align : ℕ) : ℕ := (value + align - 1) / align * align

namespace Segment

def nodeCount (s : Segment) : ℕ := s.rowIds.length

/-- Inclusive row-id range of a non-empty segment. -/
def rowIdRange (s : Segment) : ℕ × ℕ := (s.rowIds.headD 0, s.rowIds.getLastD 0)

def rowIdsLen (s : Segment) : ℕ := s.nodeCount * 8

def adjacencyLen (s : Segment) : ℕ :=
  (s.graph.layers.map fun layer => (s.nodeCount + 1 + (layer.map List.length).sum) * 4).sum

def vectorsLen (s : Segment) : ℕ := s.nodeCount * s.dimension * 4

def offAdjacency (s : Segment) : ℕ := alignUp (headerLen + s.rowIdsLen + s.nodeCount) 4

def offVectors (s : Segment) : ℕ := alignUp (s.offAdjacency + s.adjacencyLen) vectorsAlign

def byteLen (s : Segment) : ℕ := s.offVectors + s.vectorsLen

/-- Every section length fits its 32-bit field. -/
def sectionsFit (s : Segment) : Bool :=
  s.rowIdsLen < 2 ^ 32 && s.nodeCount < 2 ^ 32 && s.adjacencyLen < 2 ^ 32 &&
    s.vectorsLen < 2 ^ 32

end Segment

/-- No two neighbours out of order: the serializer's `windows(2)` check. -/
def strictlyAscending : List ℕ → Bool
  | a :: b :: rest => a < b && strictlyAscending (b :: rest)
  | _ => true

/-- `encode_segment`. The dimension is the one the first vector established. -/
def encodeSegment (rowIds : List ℕ) (vectors : List Vector) (graph : Graph) :
    Except IndexError Segment := do
  let n := rowIds.length
  let dimension := (vectors.headD []).length
  let segment : Segment := ⟨rowIds, dimension, vectors, graph⟩
  ensure (rowIds ≠ []) .segmentEmpty
  ensure (n < 2 ^ 32) (.segmentTooLarge "node_count exceeds u32")
  ensure (strictlyAscending rowIds = true) (.segmentCorrupt "row_ids must be strictly ascending")
  ensure (dimension ≠ 0) .segmentEmpty
  ensure (dimension < 2 ^ 32) (.segmentTooLarge "dim exceeds u32")
  ensure (graph.levels.length = n ∧ graph.levels.all (· < 256) = true)
    (.segmentCorrupt "level exceeds u8")
  ensure (vectors.all (fun v => v.length == dimension) = true)
    (.dimensionMismatch ((vectors.find? (fun v => v.length != dimension)).getD []).length dimension)
  let entryPoint ← orElse graph.entryPoint .segmentEmpty
  ensure (entryPoint < n) (.segmentCorrupt "entry point is outside the segment")
  ensure (graph.layers.all (fun layer => layer.all fun neighbours => neighbours.all (· < n)) = true)
    (.segmentCorrupt "neighbor is outside the segment")
  ensure (segment.sectionsFit = true) (.segmentTooLarge "section length")
  return segment

theorem strictlyAscending_iff {ids : List ℕ} :
    strictlyAscending ids = true ↔ ids.Pairwise (· < ·) := by
  rw [← List.isChain_iff_pairwise]
  induction ids with
  | nil => simp [strictlyAscending]
  | cons a ids ih =>
    cases ids with
    | nil => simp [strictlyAscending]
    | cons b ids => simp [strictlyAscending, ih]

/-- What the serializer asks of a graph over `n` ordinals. -/
structure Graph.Encodable (graph : Graph) (n : ℕ) : Prop where
  levels : graph.levels.length = n ∧ graph.levels.all (· < 256) = true
  entryPoint : ∃ p < n, graph.entryPoint = some p
  neighbours :
    graph.layers.all (fun layer => layer.all fun neighbours => neighbours.all (· < n)) = true

/-- `encodeSegment` succeeds exactly on ascending row ids, vectors of one non-zero
dimension, a graph over them and sections that fit. -/
theorem encodeSegment_eq_ok {rowIds : List ℕ} {vectors : List Vector} {graph : Graph}
    {segment : Segment} :
    encodeSegment rowIds vectors graph = .ok segment ↔
      segment = ⟨rowIds, (vectors.headD []).length, vectors, graph⟩ ∧ rowIds ≠ [] ∧
        rowIds.Pairwise (· < ·) ∧ segment.dimension ≠ 0 ∧
        (∀ v ∈ vectors, v.length = segment.dimension) ∧ graph.Encodable rowIds.length ∧
        rowIds.length < 2 ^ 32 ∧ segment.dimension < 2 ^ 32 ∧ segment.sectionsFit = true := by
  simp only [encodeSegment, bind_eq_ok, ensure_eq_ok, exists_const, orElse_eq_ok, pure_eq_ok,
    strictlyAscending_iff]
  constructor
  · rintro ⟨hne, hn, hasc, hdim, hd32, hlev, hvec, p, hp, hpn, hnb, hfit, rfl⟩
    exact ⟨rfl, hne, hasc, hdim, by simpa using hvec, ⟨hlev, ⟨p, hpn, hp⟩, hnb⟩, hn, hd32, hfit⟩
  · rintro ⟨rfl, hne, hasc, hdim, hvec, ⟨hlev, ⟨p, hpn, hp⟩, hnb⟩, hn, hd32, hfit⟩
    exact ⟨hne, hn, hasc, hdim, hd32, hlev, by simpa using hvec, p, hp, hpn, hnb, hfit, rfl⟩

/-- A segment with the zone map that travels with it. -/
abbrev SegmentPart (ζ : Type*) := Segment × ζ

/-- `SegmentSet::established_dimension`: the first non-zero one. -/
def establishedDimension {ζ : Type*} (parts : List (SegmentPart ζ)) : ℕ :=
  ((parts.map (fun part => part.1.dimension)).find? (· != 0)).getD 0

end StrataDB.Index
