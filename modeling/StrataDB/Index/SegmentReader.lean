import StrataDB.Index.Search
import StrataDB.Lib.Bytes

/-! The immutable segment file and its reader (`index/src/segment_format.rs`,
`index/src/segment_reader.rs`), down to the bytes. The two checksums are those of the
`crc32c` crate, given as a function. The buffer of a reader is aligned, so that a view
of it is as well aligned as its offset.

Arithmetic that the source does not check is `Word.add` and `Word.mul`, which overflow
as the machine's does; sums of literal offsets into the header are left plain. -/

namespace StrataDB.Index

open Lib Arrow

/-! ### The format -/

namespace Format

/-- `STRTSEG` and a zero byte. -/
def magic : Bytes := [83, 84, 82, 84, 83, 69, 71, 0]

def flagLittleEndian : ℕ := 1

def metricL2 : ℕ := 0

def noEntryPoint : ℕ := 2 ^ 32 - 1

def sectionCount : ℕ := 4

def sectionRowIds : ℕ := 0
def sectionLevels : ℕ := 1
def sectionAdjacency : ℕ := 2
def sectionVectors : ℕ := 3

def offMagic : ℕ := 0
def offFormatVersion : ℕ := 8
def offFlags : ℕ := 12
def offNodeCount : ℕ := 16
def offDim : ℕ := 20
def offMaxLevel : ℕ := 24
def offEntryPoint : ℕ := 28
def offMetric : ℕ := 32
def offM : ℕ := 34
def offMmax0 : ℕ := 36
def offMmax : ℕ := 38
def offEfConstruction : ℕ := 40
def offML : ℕ := 48
def offRowIdMin : ℕ := 56
def offRowIdMax : ℕ := 64
def offSectionOff : ℕ := 72
def offSectionLen : ℕ := 104
def offBodyCrc : ℕ := 120
def offHeaderCrc : ℕ := 124

end Format

/-- `SegmentParams`. -/
structure SegmentParams where
  m : ℕ
  mmax0 : ℕ
  mmax : ℕ
  efConstruction : ℕ
  mL : F64
  deriving DecidableEq

/-- A byte slice as the machine can hold it. -/
structure ByteSlice where
  bytes : Bytes
  fits : bytes.length < 2 ^ 63

/-- `SegmentReader`. The entry point is a 32-bit ordinal with the level of its node. -/
structure SegmentReader where
  bytes : Bytes
  nodeCount : ℕ
  dim : ℕ
  maxLevel : ℕ
  entry : Option (Fin (2 ^ 32) × ℕ)
  rowIdsOff : ℕ
  levelsOff : ℕ
  vectorsOff : ℕ
  layerOff : List (ℕ × ℕ)
  params : SegmentParams
  formatVersion : ℕ
  rowIdMin : ℕ
  rowIdMax : ℕ
  deriving DecidableEq

namespace SegmentReader

open Format

def corrupt (detail : String) : Abort IndexError := .failed (.segmentCorrupt detail)

def readU16 (b : Bytes) (off : ℕ) : ℕ := b.wordAt 2 off

def readU32 (b : Bytes) (off : ℕ) : ℕ := b.wordAt 4 off

def readU64 (b : Bytes) (off : ℕ) : ℕ := b.wordAt 8 off

def readF64 (b : Bytes) (off : ℕ) : F64 := .ofBits (readU64 b off)

/-- Offset and length of a section, as the header has them. -/
def sectionOff (b : Bytes) (i : ℕ) : ℕ := readU64 b (offSectionOff + i * 8)

def sectionLen (b : Bytes) (i : ℕ) : ℕ := readU32 b (offSectionLen + i * 4)

variable (crc : Bytes → UInt32)

/-- Eight hexadecimal digits. -/
def hex (n : ℕ) : String :=
  let digits := String.ofList (Nat.toDigits 16 n)
  "0x" ++ String.ofList (List.replicate (8 - digits.length) '0') ++ digits

/-- The checks of the header up to the format version, flags and metric. -/
def checkHeader (b : Bytes) : Except (Abort IndexError) Unit := do
  ensure (slice b offMagic (offMagic + 8) = some magic)
    (corrupt "bad magic: not a Strata segment file")
  let stored := readU32 b offHeaderCrc
  let actual := (crc ((slice b 0 offHeaderCrc).getD [])).toNat
  let storedHex := hex stored
  let actualHex := hex actual
  ensure (stored = actual)
    (corrupt s!"header CRC32C mismatch: stored {storedHex}, computed {actualHex}")
  let version := readU32 b offFormatVersion
  ensure (version = segmentFormatVersion) (corrupt
    s!"segment format version {version}, but this build reads only {segmentFormatVersion}")
  ensure (readU32 b offFlags &&& flagLittleEndian ≠ 0)
    (corrupt "segment is not flagged little-endian")
  let metric := ((b[offMetric]?).map UInt8.toNat).getD 255
  ensure (metric = metricL2) (corrupt
    s!"segment uses metric discriminant {metric}, but this build has only L2 ({metricL2})")

/-- The counts make sense. -/
def checkCounts (nodeCount dim maxLevel : ℕ) : Except (Abort IndexError) Unit := do
  ensure (nodeCount ≠ 0) (corrupt "node_count is zero")
  ensure (dim ≠ 0) (corrupt "dim is zero")
  ensure (maxLevel ≤ 255) (corrupt s!"max_level {maxLevel} exceeds u8")

/-- A section lies in the body of the file. -/
def checkSection (b : Bytes) (i : ℕ) : Except (Abort IndexError) Unit := do
  let off := sectionOff b i
  let len := b.length
  let stop ← orElse (Word.checkedAdd off (sectionLen b i))
    (corrupt s!"section {i}'s extent overflows")
  ensure (headerLen ≤ off ∧ stop ≤ b.length)
    (corrupt s!"section {i} spans {off}..{stop}, outside the {len}-byte file's body")

/-- A section starts after the end of the one before it. -/
def checkOrder (b : Bytes) (i : ℕ) : Except (Abort IndexError) Unit := do
  let stop ← Word.add (sectionOff b (i - 1)) (sectionLen b (i - 1))
  let before := i - 1
  ensure (stop ≤ sectionOff b i) (corrupt s!"section {i} overlaps section {before}")

/-- The sections have the lengths that the counts imply, and are aligned. -/
def checkGeometry (b : Bytes) (nodeCount dim : ℕ) : Except (Abort IndexError) Unit := do
  let rowIdsLen := sectionLen b sectionRowIds
  let levelsLen := sectionLen b sectionLevels
  let vectorsLen := sectionLen b sectionVectors
  let expectedRowIds ← orElse (Word.checkedMul nodeCount 8)
    (corrupt "row_ids section size overflows")
  ensure (rowIdsLen = expectedRowIds) (corrupt
    s!"row_ids section is {rowIdsLen} bytes, expected {expectedRowIds} for {nodeCount} nodes")
  ensure (levelsLen = nodeCount)
    (corrupt s!"levels section is {levelsLen} bytes, expected {nodeCount}")
  let expectedVectors ← orElse
    ((Word.checkedMul nodeCount dim).bind fun elems => Word.checkedMul elems 4)
    (corrupt "vectors section size overflows")
  ensure (vectorsLen = expectedVectors)
    (corrupt s!"vectors section is {vectorsLen} bytes, expected {expectedVectors}")
  ensure (sectionOff b sectionRowIds % 8 = 0) (corrupt "row_ids section is not 8-byte aligned")
  ensure (sectionOff b sectionAdjacency % 4 = 0)
    (corrupt "adjacency section is not 4-byte aligned")
  ensure (sectionOff b sectionVectors % vectorsAlign = 0)
    (corrupt "vectors section is not 64-byte aligned")

def checkBody (b : Bytes) : Except (Abort IndexError) Unit := do
  let stored := readU32 b offBodyCrc
  let actual := (crc ((slice b headerLen b.length).getD [])).toNat
  let storedHex := hex stored
  let actualHex := hex actual
  ensure (stored = actual)
    (corrupt s!"body CRC32C mismatch: stored {storedHex}, computed {actualHex}")

/-- The row ids ascend. -/
def checkRowIds (b : Bytes) : Except (Abort IndexError) Unit := do
  let stop ← Word.add (sectionOff b sectionRowIds) (sectionLen b sectionRowIds)
  let rowIds ← orElse (b.view 8 (sectionOff b sectionRowIds) stop)
    (corrupt "row_ids section could not be viewed as [u64]")
  ensure (strictlyAscending rowIds = true) (corrupt "row_ids are not strictly ascending")

/-- The levels of the nodes, none above the highest. -/
def readLevels (b : Bytes) (maxLevel : ℕ) : Except (Abort IndexError) Bytes := do
  let stop ← Word.add (sectionOff b sectionLevels) (sectionLen b sectionLevels)
  let levels ← orElse (slice b (sectionOff b sectionLevels) stop)
    (corrupt "levels section is out of range")
  ensure (levels.all (fun l => l.toNat ≤ maxLevel) = true)
    (corrupt "a node's level exceeds the segment's max_level")
  return levels

/-- One array of the adjacency section: where it ends, and its words. -/
def readArray (b : Bytes) (adjacencyEnd start count : ℕ) (overflow outside unreadable : String) :
    Except (Abort IndexError) (ℕ × List ℕ) := do
  let len ← orElse (Word.checkedMul count 4) (corrupt overflow)
  let stop ← orElse ((Word.checkedAdd start len).filter (· ≤ adjacencyEnd)) (corrupt outside)
  let ws ← orElse (b.view 4 start stop) (corrupt unreadable)
  return (stop, ws)

/-- `windows(2)` of a list finds no descent. -/
def nonDecreasing : List ℕ → Bool
  | a :: b :: rest => a ≤ b && nonDecreasing (b :: rest)
  | _ => true

/-- The two arrays of a layer: where its offsets end, and where its neighbours do. -/
def readLayer (b : Bytes) (nodeCount adjacencyEnd layer cursor : ℕ) :
    Except (Abort IndexError) (ℕ × ℕ) := do
  let count ← Word.add nodeCount 1
  let (offsetsEnd, offsets) ← readArray b adjacencyEnd cursor count
    "a layer's offsets array size overflows"
    s!"layer {layer}'s offsets array runs past the adjacency section"
    s!"layer {layer}'s offsets array could not be viewed as [u32]"
  ensure (offsets.head? = some 0)
    (corrupt s!"layer {layer}'s offsets array does not start at 0")
  ensure (nonDecreasing offsets = true)
    (corrupt s!"layer {layer}'s offsets array is not non-decreasing")
  let (neighborsEnd, neighbors) ← readArray b adjacencyEnd offsetsEnd
    (offsets.getLast?.getD 0)
    "a layer's neighbors array size overflows"
    s!"layer {layer}'s neighbors array runs past the adjacency section"
    s!"layer {layer}'s neighbors array could not be viewed as [u32]"
  ensure (neighbors.any (nodeCount ≤ ·) = false)
    (corrupt s!"layer {layer} names a neighbor ordinal outside 0..{nodeCount}")
  return (offsetsEnd, neighborsEnd)

/-- The layers from this one on: their arrays, and where the last one ends. -/
def readLayers (b : Bytes) (nodeCount adjacencyEnd : ℕ) :
    ℕ → ℕ → ℕ → Except (Abort IndexError) (List (ℕ × ℕ) × ℕ)
  | 0, _, cursor => .ok ([], cursor)
  | layers + 1, layer, cursor => do
    let (offsetsEnd, neighborsEnd) ← readLayer b nodeCount adjacencyEnd layer cursor
    let (rest, stop) ← readLayers b nodeCount adjacencyEnd layers (layer + 1) neighborsEnd
    return ((cursor, offsetsEnd) :: rest, stop)

/-- The adjacency section holds the layers and nothing after them. -/
def readAdjacency (b : Bytes) (nodeCount maxLevel : ℕ) :
    Except (Abort IndexError) (List (ℕ × ℕ)) := do
  let layers ← Word.add maxLevel 1
  let adjacencyEnd ← Word.add (sectionOff b sectionAdjacency) (sectionLen b sectionAdjacency)
  let (layerOff, cursor) ← readLayers b nodeCount adjacencyEnd layers 0
    (sectionOff b sectionAdjacency)
  -- no layer ends after the section, so the subtraction of the source does not wrap
  let trailing := adjacencyEnd - cursor
  ensure (cursor = adjacencyEnd)
    (corrupt s!"adjacency section has {trailing} trailing bytes after {layers} layers")
  return layerOff

/-- The entry point and its level. -/
def readEntry (b : Bytes) (nodeCount : ℕ) (levels : Bytes) :
    Except (Abort IndexError) (Option (Fin (2 ^ 32) × ℕ)) :=
  let raw := readU32 b offEntryPoint
  if raw = noEntryPoint then .ok none
  else do
    ensure (raw < nodeCount) (corrupt s!"entry point {raw} is outside 0..{nodeCount}")
    let level ← orElse levels[raw]? (corrupt "entry point has no level")
    return some (⟨raw, b.wordAt_lt 4 offEntryPoint⟩, level.toNat)

/-- `from_bytes`. -/
def fromBytes (raw : ByteSlice) : Except (Abort IndexError) SegmentReader := do
  let b := raw.bytes
  let len := b.length
  ensure (headerLen ≤ b.length)
    (corrupt s!"file is {len} bytes, shorter than the {headerLen}-byte header")
  -- `AlignedBytes::from_slice` allocates whole blocks.
  let _ ← Word.mul (max ((b.length + 63) / 64) 1) 64
  checkHeader crc b
  let nodeCount := readU32 b offNodeCount
  let dim := readU32 b offDim
  let maxLevel := readU32 b offMaxLevel
  checkCounts nodeCount dim maxLevel
  (List.range sectionCount).forM (checkSection b)
  [1, 2, 3].forM (checkOrder b)
  checkGeometry b nodeCount dim
  checkBody crc b
  checkRowIds b
  let levels ← readLevels b maxLevel
  let layerOff ← readAdjacency b nodeCount maxLevel
  let entry ← readEntry b nodeCount levels
  return {
    bytes := b
    nodeCount, dim, maxLevel, entry, layerOff
    rowIdsOff := sectionOff b sectionRowIds
    levelsOff := sectionOff b sectionLevels
    vectorsOff := sectionOff b sectionVectors
    params :=
      { m := readU16 b offM
        mmax0 := readU16 b offMmax0
        mmax := readU16 b offMmax
        efConstruction := readU16 b offEfConstruction
        mL := readF64 b offML }
    formatVersion := readU32 b offFormatVersion
    rowIdMin := readU64 b offRowIdMin
    rowIdMax := readU64 b offRowIdMax }

/-! ### Accessors -/

variable (r : SegmentReader)

def rowIdSlice : Except (Abort IndexError) (List ℕ) := do
  let len ← Word.mul r.nodeCount 8
  let stop ← Word.add r.rowIdsOff len
  return (r.bytes.view 8 r.rowIdsOff stop).getD []

def levels : Except (Abort IndexError) Bytes := do
  let stop ← Word.add r.levelsOff r.nodeCount
  return (slice r.bytes r.levelsOff stop).getD []

def layerOffsets (layer : ℕ) : List ℕ :=
  match r.layerOff[layer]? with
  | none => []
  | some (offsetsOff, neighborsOff) => (r.bytes.view 4 offsetsOff neighborsOff).getD []

def layerNeighbors (layer : ℕ) : Except (Abort IndexError) (List ℕ) :=
  match r.layerOff[layer]? with
  | none => .ok []
  | some (_, neighborsOff) => do
    let len ← Word.mul ((r.layerOffsets layer).getLast?.getD 0) 4
    let stop ← Word.add neighborsOff len
    return (r.bytes.view 4 neighborsOff stop).getD []

def entryPoint : Option (ℕ × ℕ) := r.entry.map fun e => (e.1.val, e.2)

def level (node : ℕ) : Except (Abort IndexError) (Option ℕ) := do
  let levels ← r.levels
  return levels[node]?.map UInt8.toNat

/-- `neighbors_into`. -/
def neighborsInto (node level : ℕ) : Except (Abort IndexError) (List ℕ) :=
  if r.nodeCount ≤ node ∨ r.maxLevel < level then .ok []
  else do
    let offsets := r.layerOffsets level
    let next ← Word.add node 1
    match offsets[node]?, offsets[next]? with
    | some start, some stop => do
      let neighbors ← r.layerNeighbors level
      return (slice neighbors start stop).getD []
    | _, _ => return []

def vector (node : ℕ) : Except (Abort IndexError) (Option Vector) :=
  if r.nodeCount ≤ node then .ok none
  else do
    let width ← Word.mul r.dim 4
    return do
      let skip ← Word.checkedMul node width
      let start ← Word.checkedAdd r.vectorsOff skip
      let stop ← Word.checkedAdd start width
      let ws ← r.bytes.view 4 start stop
      return ws.map Binary.ofBits

/-- `row_id_at`. -/
def rowIdAt (node : ℕ) : Except (Abort IndexError) (Option ℕ) := do
  let rowIds ← r.rowIdSlice
  return rowIds[node]?

/-- `row_id`, with a value that is no row id where there is none. -/
def rowId (node : ℕ) : Except (Abort IndexError) ℕ := do
  let id ← r.rowIdAt node
  return id.getD (2 ^ 64 - 1)

theorem layerNeighbors_lt {layer : ℕ} {neighbors : List ℕ}
    (h : r.layerNeighbors layer = .ok neighbors) {x : ℕ} (hx : x ∈ neighbors) : x < 2 ^ 32 := by
  unfold layerNeighbors at h
  split at h
  · cases h
    cases hx
  · simp only [bind_eq_ok, pure_eq_ok] at h
    obtain ⟨len, -, stop, -, rfl⟩ := h
    cases hview : r.bytes.view 4 _ stop with
    | none =>
      rw [hview] at hx
      cases hx
    | some ws =>
      rw [hview] at hx
      exact Bytes.view_lt hview hx

theorem neighborsInto_lt {node level : ℕ} {out : List ℕ} (h : r.neighborsInto node level = .ok out)
    {x : ℕ} (hx : x ∈ out) : x < 2 ^ 32 := by
  unfold neighborsInto at h
  split at h
  · cases h
    cases hx
  · simp only [bind_eq_ok] at h
    obtain ⟨next, -, h⟩ := h
    split at h
    · simp only [bind_eq_ok, pure_eq_ok] at h
      obtain ⟨neighbors, hneighbors, rfl⟩ := h
      cases hslice : slice neighbors _ _ with
      | none =>
        rw [hslice] at hx
        cases hx
      | some part =>
        rw [hslice] at hx
        exact r.layerNeighbors_lt hneighbors (mem_of_slice hslice hx)
    · cases h
      cases hx

/-- The nodes of a segment for a search. An accessor that overflows gives nothing; on a
reader that was loaded none does. -/
def source : NodeSource where
  entryPoint := r.entryPoint
  level node := (r.level node).toOption.join
  neighbors node level := (r.neighborsInto node level).toOption.getD []
  vector node := (r.vector node).toOption.join
  rowId node := (r.rowId node).toOption.getD (2 ^ 64 - 1)
  dimension := r.dim
  isDeleted _ := false
  bound := 2 ^ 32
  entryPoint_lt := by
    intro e he
    obtain ⟨p, -, rfl⟩ := Option.map_eq_some_iff.mp he
    exact p.1.isLt
  neighbors_lt := by
    intro node level n hn
    cases h : r.neighborsInto node level with
    | error e =>
      rw [h] at hn
      cases hn
    | ok out =>
      rw [h] at hn
      exact r.neighborsInto_lt h hn

end SegmentReader

end StrataDB.Index
