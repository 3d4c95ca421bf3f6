import StrataDB.Index.SegmentReader

/-! Loading a segment is total: whatever the bytes are, nothing overflows and no access
is out of range. What it accepts is well formed, and each accessor stays inside what the
one pass of validation has checked. -/

namespace StrataDB.Index.SegmentReader

open Lib Arrow Format

variable {crc : Bytes → UInt32} {b : Bytes} {r : SegmentReader}

/-! ### What the checks say -/

variable {u : Unit} {adjacencyEnd layer cursor : ℕ}

theorem checkSection_eq_ok {i : ℕ} : checkSection b i = .ok u ↔
    sectionOff b i + sectionLen b i < 2 ^ 64 ∧ headerLen ≤ sectionOff b i ∧
      sectionOff b i + sectionLen b i ≤ b.length := by
  simp only [checkSection, bind_eq_ok, orElse_eq_ok, Word.checkedAdd_eq_some, ensure_eq_ok]
  constructor
  · rintro ⟨_, ⟨hlt, rfl⟩, hoff, hstop⟩
    exact ⟨hlt, hoff, hstop⟩
  · rintro ⟨hlt, hoff, hstop⟩
    exact ⟨_, ⟨hlt, rfl⟩, hoff, hstop⟩

/-- Every section lies in the file. -/
def Located (b : Bytes) : Prop := ∀ i < sectionCount, sectionOff b i + sectionLen b i ≤ b.length

theorem located_of_checkSection {u : PUnit}
    (h : (List.range sectionCount).forM (checkSection b) = .ok u) : Located b := fun i hi =>
  (checkSection_eq_ok.mp (forM_eq_ok.mp h i (List.mem_range.mpr hi))).2.2

theorem checkGeometry_eq_ok {nodeCount dim : ℕ} (h : checkGeometry b nodeCount dim = .ok u) :
    sectionLen b sectionRowIds = nodeCount * 8 ∧ sectionLen b sectionLevels = nodeCount ∧
      sectionLen b sectionVectors = nodeCount * dim * 4 ∧ sectionOff b sectionRowIds % 8 = 0 ∧
      sectionOff b sectionAdjacency % 4 = 0 ∧ sectionOff b sectionVectors % 64 = 0 := by
  simp only [checkGeometry, bind_eq_ok, orElse_eq_ok, ensure_eq_ok, Word.checkedMul_eq_some,
    exists_const, Option.bind_eq_some_iff] at h
  obtain ⟨_, ⟨-, rfl⟩, hrowIds, hlevels, _, ⟨_, ⟨-, rfl⟩, -, rfl⟩, hvectors, h8, h4, h64⟩ := h
  exact ⟨hrowIds, hlevels, hvectors, h8, h4, h64⟩

theorem readArray_eq_ok {start count stop : ℕ} {ws : List ℕ} {overflow outside unreadable : String}
    (h : readArray b adjacencyEnd start count overflow outside unreadable = .ok (stop, ws)) :
    stop = start + count * 4 ∧ stop ≤ adjacencyEnd ∧ b.view 4 start stop = some ws := by
  simp only [readArray, bind_eq_ok, orElse_eq_ok, pure_eq_ok, Word.checkedMul_eq_some,
    Option.filter_eq_some_iff, Word.checkedAdd_eq_some, Prod.mk.injEq] at h
  obtain ⟨_, ⟨-, rfl⟩, _, ⟨⟨-, rfl⟩, hle⟩, _, hview, rfl, rfl⟩ := h
  exact ⟨rfl, of_decide_eq_true hle, hview⟩

theorem nonDecreasing_iff {xs : List ℕ} : nonDecreasing xs = true ↔ xs.Pairwise (· ≤ ·) := by
  rw [← List.isChain_iff_pairwise]
  induction xs with
  | nil => simp [nonDecreasing]
  | cons x xs ih =>
    cases xs with
    | nil => simp [nonDecreasing]
    | cons y xs => simp [nonDecreasing, ih]

/-- The two arrays of a layer: offsets that ascend from zero, one more than there are
nodes, and ordinals of nodes up to the last offset. -/
structure LayerValid (b : Bytes) (nodeCount offsetsOff neighborsOff : ℕ) (offsets : List ℕ)
    (neighbors : List ℕ) : Prop where
  offsets_view : b.view 4 offsetsOff neighborsOff = some offsets
  length : offsets.length = nodeCount + 1
  head : offsets.head? = some 0
  ascending : offsets.Pairwise (· ≤ ·)
  neighbors_view : b.view 4 neighborsOff (neighborsOff + offsets.getLast?.getD 0 * 4) =
    some neighbors
  neighbors_lt : ∀ x ∈ neighbors, x < nodeCount

theorem readLayer_eq_ok {nodeCount : ℕ} {ends : ℕ × ℕ}
    (h : readLayer b nodeCount adjacencyEnd layer cursor = .ok ends) :
    (∃ offsets neighbors, LayerValid b nodeCount cursor ends.1 offsets neighbors ∧
      ends.2 = ends.1 + offsets.getLast?.getD 0 * 4) ∧ ends.1 = cursor + (nodeCount + 1) * 4 ∧
      ends.2 ≤ adjacencyEnd := by
  simp only [readLayer, bind_eq_ok, ensure_eq_ok, pure_eq_ok, exists_const, Word.add_eq_ok,
    Prod.exists] at h
  obtain ⟨_, ⟨-, rfl⟩, offsetsEnd, offsets, hoffsets, hhead, hasc, neighborsEnd, neighbors,
    hneighbors, hlt, rfl⟩ := h
  obtain ⟨rfl, -, hview⟩ := readArray_eq_ok hoffsets
  obtain ⟨rfl, hend, hview'⟩ := readArray_eq_ok hneighbors
  have hlen := Bytes.length_of_view hview
  rw [Nat.add_sub_cancel_left, Nat.mul_div_cancel _ (by decide)] at hlen
  refine ⟨⟨offsets, neighbors, ⟨hview, hlen, hhead, nonDecreasing_iff.mp hasc, hview',
    fun x hx => ?_⟩, rfl⟩, rfl, hend⟩
  rw [List.any_eq_false] at hlt
  simpa using hlt x hx

theorem readLayers_eq_ok {nodeCount : ℕ} {layers : ℕ} {result : List (ℕ × ℕ) × ℕ}
    (h : readLayers b nodeCount adjacencyEnd layers layer cursor = .ok result) :
    result.1.length = layers ∧ ∀ p ∈ result.1, ∃ offsets neighbors,
      LayerValid b nodeCount p.1 p.2 offsets neighbors := by
  induction layers generalizing layer cursor result with
  | zero =>
    cases h
    exact ⟨rfl, by simp⟩
  | succ layers ih =>
    simp only [readLayers, bind_eq_ok, pure_eq_ok, Prod.exists] at h
    obtain ⟨offsetsEnd, neighborsEnd, hlayer, rest, stop, hrest, rfl⟩ := h
    obtain ⟨⟨offsets, neighbors, hvalid, -⟩, -⟩ := readLayer_eq_ok hlayer
    obtain ⟨hlen, hall⟩ := ih hrest
    refine ⟨by rw [List.length_cons, hlen], fun p hp => ?_⟩
    rcases List.mem_cons.mp hp with rfl | hp
    · exact ⟨offsets, neighbors, hvalid⟩
    · exact hall p hp

/-! ### Nothing overflows -/

theorem reported (detail : String) : (corrupt detail).Reported := ⟨_, rfl⟩

theorem failsWith_checkHeader : FailsWith Abort.Reported (checkHeader crc b) :=
  .bind (.ensure (reported _)) fun _ => .bind (.ensure (reported _)) fun _ =>
    .bind (.ensure (reported _)) fun _ => .bind (.ensure (reported _)) fun _ =>
      .ensure (reported _)

theorem failsWith_checkCounts (nodeCount dim maxLevel : ℕ) :
    FailsWith Abort.Reported (checkCounts nodeCount dim maxLevel) :=
  .bind (.ensure (reported _)) fun _ => .bind (.ensure (reported _)) fun _ =>
    .ensure (reported _)

theorem failsWith_checkSection (i : ℕ) : FailsWith Abort.Reported (checkSection b i) :=
  .bind (.orElse (reported _)) fun _ => .ensure (reported _)

theorem failsWith_checkGeometry (nodeCount dim : ℕ) :
    FailsWith Abort.Reported (checkGeometry b nodeCount dim) :=
  .bind (.orElse (reported _)) fun _ => .bind (.ensure (reported _)) fun _ =>
    .bind (.ensure (reported _)) fun _ => .bind (.orElse (reported _)) fun _ =>
      .bind (.ensure (reported _)) fun _ => .bind (.ensure (reported _)) fun _ =>
        .bind (.ensure (reported _)) fun _ => .ensure (reported _)

theorem failsWith_checkBody : FailsWith Abort.Reported (checkBody crc b) := .ensure (reported _)

theorem failsWith_readEntry (nodeCount : ℕ) (levels : Bytes) :
    FailsWith Abort.Reported (readEntry b nodeCount levels) := by
  unfold readEntry
  dsimp only
  split
  · exact .ok _
  · exact .bind (.ensure (reported _)) fun _ => .bind (.orElse (reported _)) fun _ => .ok _

theorem failsWith_readArray (adjacencyEnd start count : ℕ) (overflow outside unreadable : String) :
    FailsWith Abort.Reported
      (readArray b adjacencyEnd start count overflow outside unreadable) :=
  .bind (.orElse (reported _)) fun _ => .bind (.orElse (reported _)) fun _ =>
    .bind (.orElse (reported _)) fun _ => .ok _

theorem failsWith_readLayer {nodeCount : ℕ} (hcount : nodeCount < 2 ^ 32)
    (adjacencyEnd layer cursor : ℕ) :
    FailsWith Abort.Reported (readLayer b nodeCount adjacencyEnd layer cursor) := by
  unfold readLayer
  rw [Word.add_of_lt (by omega), ok_bind]
  exact .bind (failsWith_readArray _ _ _ _ _ _) fun _ => .bind (.ensure (reported _)) fun _ =>
    .bind (.ensure (reported _)) fun _ => .bind (failsWith_readArray _ _ _ _ _ _) fun _ =>
      .bind (.ensure (reported _)) fun _ => .ok _

theorem failsWith_readLayers {nodeCount : ℕ} (hcount : nodeCount < 2 ^ 32) (adjacencyEnd : ℕ)
    (layers layer cursor : ℕ) :
    FailsWith Abort.Reported (readLayers b nodeCount adjacencyEnd layers layer cursor) := by
  induction layers generalizing layer cursor with
  | zero => exact .ok _
  | succ layers ih =>
    exact .bind (failsWith_readLayer hcount _ _ _) fun _ => .bind (ih _ _) fun _ => .ok _

section

variable (hlen : b.length < 2 ^ 63) (hloc : Located b)

include hlen hloc

variable {i : ℕ}

theorem add_section (hi : i < sectionCount) :
    (Word.add (sectionOff b i) (sectionLen b i) : Except (Abort IndexError) ℕ) =
      .ok (sectionOff b i + sectionLen b i) := by
  have hstop := hloc i hi
  exact Word.add_of_lt (by omega)

theorem failsWith_checkOrder (hi : i ∈ [1, 2, 3]) : FailsWith Abort.Reported (checkOrder b i) := by
  have hlt : i - 1 < sectionCount := by
    simp only [List.mem_cons, List.not_mem_nil, or_false] at hi
    unfold sectionCount
    omega
  unfold checkOrder
  rw [add_section hlen hloc hlt, ok_bind]
  exact .ensure (reported _)

theorem failsWith_checkRowIds : FailsWith Abort.Reported (checkRowIds b) := by
  unfold checkRowIds
  rw [add_section hlen hloc (by decide), ok_bind]
  exact .bind (.orElse (reported _)) fun _ => .ensure (reported _)

theorem failsWith_readLevels (maxLevel : ℕ) :
    FailsWith Abort.Reported (readLevels b maxLevel) := by
  unfold readLevels
  rw [add_section hlen hloc (by decide), ok_bind]
  exact .bind (.orElse (reported _)) fun _ => .bind (.ensure (reported _)) fun _ => .ok _

theorem failsWith_readAdjacency {nodeCount maxLevel : ℕ} (hcount : nodeCount < 2 ^ 32)
    (hlevel : maxLevel ≤ 255) :
    FailsWith Abort.Reported (readAdjacency b nodeCount maxLevel) := by
  unfold readAdjacency
  rw [Word.add_of_lt (by omega), ok_bind, add_section hlen hloc (by decide), ok_bind]
  exact .bind (failsWith_readLayers hcount _ _ _ _) fun _ => .bind (.ensure (reported _)) fun _ =>
    .ok _

end

/-- Whatever the bytes are, loading them ends with a reader or an error it reports. -/
theorem failsWith_fromBytes (raw : ByteSlice) :
    FailsWith Abort.Reported (fromBytes crc raw) := by
  have hlen := raw.fits
  unfold fromBytes
  dsimp only
  refine .bind (.ensure (reported _)) fun _ => ?_
  rw [Word.mul_of_lt (by omega), ok_bind]
  refine .bind failsWith_checkHeader fun _ => .bind_ok (failsWith_checkCounts _ _ _)
    fun _ hcounts =>
    .bind_ok (.forM failsWith_checkSection _) fun _ hsections => ?_
  have hloc := located_of_checkSection hsections
  have hlevel : readU32 raw.bytes offMaxLevel ≤ 255 := by
    simp only [checkCounts, bind_eq_ok, ensure_eq_ok, exists_const] at hcounts
    exact hcounts.2.2
  have horder : FailsWith Abort.Reported ([1, 2, 3].forM (checkOrder raw.bytes)) :=
    .bind (failsWith_checkOrder hlen hloc (by simp)) fun _ =>
      .bind (failsWith_checkOrder hlen hloc (by simp)) fun _ =>
        .bind (failsWith_checkOrder hlen hloc (by simp)) fun _ => .ok _
  exact .bind horder fun _ => .bind (failsWith_checkGeometry _ _) fun _ =>
    .bind failsWith_checkBody fun _ => .bind (failsWith_checkRowIds hlen hloc) fun _ =>
      .bind (failsWith_readLevels hlen hloc _) fun _ =>
        .bind (failsWith_readAdjacency hlen hloc (raw.bytes.wordAt_lt 4 _) hlevel) fun _ =>
          .bind (failsWith_readEntry _ _) fun _ => .ok _

/-! ### A reader that was loaded -/

/-- What loading has checked. -/
structure Valid (r : SegmentReader) : Prop where
  length : r.bytes.length < 2 ^ 63
  nodeCount : r.nodeCount < 2 ^ 32
  dim : r.dim < 2 ^ 32
  rowIds : ∃ ids, r.bytes.view 8 r.rowIdsOff (r.rowIdsOff + r.nodeCount * 8) = some ids ∧
    ids.Pairwise (· < ·)
  levels : ∃ levels, slice r.bytes r.levelsOff (r.levelsOff + r.nodeCount) = some levels ∧
    (∀ l ∈ levels, l.toNat ≤ r.maxLevel) ∧
    ∀ e ∈ r.entry, e.1.val < r.nodeCount ∧ levels[e.1.val]?.map UInt8.toNat = some e.2
  vectors : r.vectorsOff + r.nodeCount * r.dim * 4 ≤ r.bytes.length
  vectors_aligned : r.vectorsOff % 4 = 0
  layers : ∀ p ∈ r.layerOff, ∃ offsets neighbors,
    LayerValid r.bytes r.nodeCount p.1 p.2 offsets neighbors

theorem readEntry_eq_ok {nodeCount : ℕ} {levels : Bytes} {entry : Option (Fin (2 ^ 32) × ℕ)}
    (h : readEntry b nodeCount levels = .ok entry) :
    ∀ e ∈ entry, e.1.val < nodeCount ∧ levels[e.1.val]?.map UInt8.toNat = some e.2 := by
  unfold readEntry at h
  dsimp only at h
  split at h
  · cases h
    simp
  · simp only [bind_eq_ok, ensure_eq_ok, orElse_eq_ok, pure_eq_ok, exists_const] at h
    obtain ⟨hlt, level, hlevel, rfl⟩ := h
    intro e he
    cases he
    exact ⟨hlt, by rw [hlevel]; rfl⟩

theorem valid_of_fromBytes {raw : ByteSlice} (h : fromBytes crc raw = .ok r) : r.Valid := by
  simp only [fromBytes, bind_eq_ok, pure_eq_ok] at h
  obtain ⟨_, -, _, -, _, -, _, hcounts, _, hsections, _, -, _, hgeometry, _, -, _, hrowIds,
    levels, hlevels, layerOff, hlayers, entry, hentry, rfl⟩ := h
  have hloc := located_of_checkSection hsections
  obtain ⟨hlen0, hlen1, hlen3, h8, h4, h64⟩ := checkGeometry_eq_ok hgeometry
  have hfile := raw.fits
  refine ⟨raw.fits, raw.bytes.wordAt_lt 4 _, raw.bytes.wordAt_lt 4 _, ?_, ⟨levels, ?_, ?_,
    readEntry_eq_ok hentry⟩, ?_, ?_, ?_⟩
  · simp only [checkRowIds, bind_eq_ok, orElse_eq_ok, ensure_eq_ok, Word.add_eq_ok,
      strictlyAscending_iff] at hrowIds
    obtain ⟨_, ⟨-, rfl⟩, ids, hids, hasc⟩ := hrowIds
    rw [hlen0] at hids
    exact ⟨ids, hids, hasc⟩
  · simp only [readLevels, bind_eq_ok, orElse_eq_ok, ensure_eq_ok, Word.add_eq_ok,
      exists_const, pure_eq_ok] at hlevels
    obtain ⟨_, ⟨-, rfl⟩, _, hslice, -, rfl⟩ := hlevels
    rw [hlen1] at hslice
    exact hslice
  · simp only [readLevels, bind_eq_ok, orElse_eq_ok, ensure_eq_ok, Word.add_eq_ok,
      exists_const, pure_eq_ok] at hlevels
    obtain ⟨_, -, _, -, hall, rfl⟩ := hlevels
    exact fun l hl => of_decide_eq_true (List.all_eq_true.mp hall l hl)
  · have hstop := hloc sectionVectors (by decide)
    rw [hlen3] at hstop
    exact hstop
  · change sectionOff raw.bytes sectionVectors % 4 = 0
    omega
  · simp only [readAdjacency, bind_eq_ok, pure_eq_ok, exists_const, Prod.exists, Word.add_eq_ok,
      ensure_eq_ok] at hlayers
    obtain ⟨_, -, _, -, _, _, hread, -, rfl⟩ := hlayers
    exact (readLayers_eq_ok hread).2

namespace Valid

variable (h : r.Valid)

include h

theorem rowIdSlice_eq : ∃ ids, r.rowIdSlice = .ok ids ∧ ids.length = r.nodeCount ∧
    ids.Pairwise (· < ·) := by
  obtain ⟨ids, hview, hasc⟩ := h.rowIds
  have hlen := h.length
  have hstop := (Bytes.view_eq_some.mp hview).2.1
  refine ⟨ids, ?_, ?_, hasc⟩
  · rw [rowIdSlice, Word.mul_of_lt (by omega), ok_bind, Word.add_of_lt (by omega), ok_bind, hview]
    rfl
  · rw [Bytes.length_of_view hview, Nat.add_sub_cancel_left, Nat.mul_div_cancel _ (by decide)]

theorem levels_eq : ∃ levels, r.levels = .ok levels ∧ levels.length = r.nodeCount ∧
    (∀ l ∈ levels, l.toNat ≤ r.maxLevel) ∧
    ∀ e ∈ r.entry, e.1.val < r.nodeCount ∧ levels[e.1.val]?.map UInt8.toNat = some e.2 := by
  obtain ⟨levels, hslice, hle, hentry⟩ := h.levels
  have hlen := h.length
  have hstop := (slice_eq_some.mp hslice).2.1
  refine ⟨levels, ?_, ?_, hle, hentry⟩
  · rw [SegmentReader.levels, Word.add_of_lt (by omega), ok_bind, hslice]
    rfl
  · rw [length_of_slice hslice, Nat.add_sub_cancel_left]

variable {node : ℕ}

theorem level_eq (hnode : node < r.nodeCount) : ∃ l ≤ r.maxLevel, r.level node = .ok (some l) := by
  obtain ⟨levels, hlevels, hlen, hle, -⟩ := h.levels_eq
  have hget : levels[node]? = some levels[node] := List.getElem?_eq_getElem (hlen ▸ hnode)
  refine ⟨levels[node].toNat, hle _ (List.getElem_mem _), ?_⟩
  rw [level, hlevels, ok_bind, hget]
  rfl

theorem entryPoint_eq {e : ℕ × ℕ} (he : r.entryPoint = some e) :
    e.1 < r.nodeCount ∧ r.level e.1 = .ok (some e.2) := by
  obtain ⟨levels, hlevels, -, -, hentry⟩ := h.levels_eq
  obtain ⟨p, hp, rfl⟩ := Option.map_eq_some_iff.mp he
  obtain ⟨hlt, hlevel⟩ := hentry p hp
  refine ⟨hlt, ?_⟩
  rw [level, hlevels, ok_bind, hlevel]
  rfl

/-- The neighbours of a layer, up to its last offset. -/
theorem layerNeighbors_eq (layer : ℕ) : ∃ neighbors, r.layerNeighbors layer = .ok neighbors ∧
    ∀ x ∈ neighbors, x < r.nodeCount := by
  unfold layerNeighbors
  cases hoff : r.layerOff[layer]? with
  | none => exact ⟨[], rfl, by simp⟩
  | some p =>
    obtain ⟨offsets, neighbors, hvalid⟩ := h.layers p (List.mem_of_getElem? hoff)
    have hoffsets : r.layerOffsets layer = offsets := by
      rw [layerOffsets, hoff]
      dsimp only
      rw [hvalid.offsets_view]
      rfl
    have hlen := h.length
    have hstop := (Bytes.view_eq_some.mp hvalid.neighbors_view).2.1
    refine ⟨neighbors, ?_, hvalid.neighbors_lt⟩
    dsimp only
    rw [hoffsets, Word.mul_of_lt (by omega), ok_bind, Word.add_of_lt (by omega), ok_bind,
      hvalid.neighbors_view]
    rfl

theorem neighborsInto_eq (node level : ℕ) : ∃ out, r.neighborsInto node level = .ok out ∧
    ∀ x ∈ out, x < r.nodeCount := by
  have hcount := h.nodeCount
  unfold neighborsInto
  split
  · exact ⟨[], rfl, by simp⟩
  · rename_i hin
    rw [not_or, not_le] at hin
    rw [Word.add_of_lt (by omega), ok_bind]
    obtain ⟨neighbors, hneighbors, hlt⟩ := h.layerNeighbors_eq level
    rw [hneighbors]
    split
    · refine ⟨_, rfl, fun x hx => ?_⟩
      cases hslice : slice neighbors _ _ with
      | none =>
        rw [hslice] at hx
        cases hx
      | some part =>
        rw [hslice] at hx
        exact hlt x (mem_of_slice hslice hx)
    · exact ⟨[], rfl, by simp⟩

theorem vector_eq (hnode : node < r.nodeCount) :
    ∃ v, r.vector node = .ok (some v) ∧ v.length = r.dim := by
  have hlen := h.length
  have hdim := h.dim
  have hfile := h.vectors
  -- The last byte of the node's vector is not after that of the section.
  have hstop : node * (r.dim * 4) + r.dim * 4 ≤ r.nodeCount * r.dim * 4 :=
    calc node * (r.dim * 4) + r.dim * 4 = (node + 1) * (r.dim * 4) := (Nat.succ_mul _ _).symm
      _ ≤ r.nodeCount * (r.dim * 4) := Nat.mul_le_mul_right _ hnode
      _ = r.nodeCount * r.dim * 4 := (Nat.mul_assoc _ _ _).symm
  have haligned : (r.vectorsOff + node * (r.dim * 4)) % 4 = 0 := by
    have := h.vectors_aligned
    have hfour : node * (r.dim * 4) = node * r.dim * 4 := (Nat.mul_assoc _ _ _).symm
    omega
  obtain ⟨ws, hview, hws⟩ := Bytes.exists_view (k := 4) r.bytes r.dim haligned (by omega)
  rw [Nat.mul_div_cancel _ (by decide)] at hws
  refine ⟨ws.map Binary.ofBits, ?_, by rw [List.length_map, hws]⟩
  rw [vector, if_neg (Nat.not_le_of_lt hnode), Word.mul_of_lt (by omega), ok_bind]
  have hskip : Word.checkedMul node (r.dim * 4) = some (node * (r.dim * 4)) :=
    Word.checkedMul_eq_some.mpr ⟨by omega, rfl⟩
  have hstart : Word.checkedAdd r.vectorsOff (node * (r.dim * 4)) =
      some (r.vectorsOff + node * (r.dim * 4)) := Word.checkedAdd_eq_some.mpr ⟨by omega, rfl⟩
  have hend : Word.checkedAdd (r.vectorsOff + node * (r.dim * 4)) (r.dim * 4) =
      some (r.vectorsOff + node * (r.dim * 4) + r.dim * 4) :=
    Word.checkedAdd_eq_some.mpr ⟨by omega, rfl⟩
  simp only [hskip, hstart, hend, hview, Option.bind_eq_bind, Option.bind_some]
  rfl

end Valid

/-- Whatever the bytes are: loading them overflows nowhere and reports an error, or gives
a reader on which no accessor overflows and everything below its node count is there.
Searches over it end. -/
theorem decoding_total (raw : ByteSlice) :
    (∃ e, fromBytes crc raw = .error (.failed e)) ∨ ∃ r, fromBytes crc raw = .ok r ∧
      (∀ node < r.nodeCount,
        (∃ v, r.vector node = .ok (some v) ∧ v.length = r.dim) ∧
        ∃ l ≤ r.maxLevel, r.level node = .ok (some l)) ∧
      (∀ node layer, ∃ out, r.neighborsInto node layer = .ok out ∧ ∀ x ∈ out, x < r.nodeCount) ∧
      (∀ e, r.entryPoint = some e → e.1 < r.nodeCount ∧ r.level e.1 = .ok (some e.2)) ∧
      (∃ ids, r.rowIdSlice = .ok ids ∧ ids.length = r.nodeCount ∧ ids.Pairwise (· < ·)) ∧
      ∀ {δ : Type} (M : Metric δ) (H : Heaps δ) (query : Vector) (filter : ℕ → Bool) (k ef : ℕ),
        ∃ result, kNnSearch M H r.source query filter k ef = some result := by
  cases hload : fromBytes crc raw with
  | error a =>
    obtain ⟨e, rfl⟩ := failsWith_fromBytes raw a hload
    exact .inl ⟨e, rfl⟩
  | ok r =>
    have h := valid_of_fromBytes hload
    exact .inr ⟨r, rfl, fun node hnode => ⟨h.vector_eq hnode, h.level_eq hnode⟩,
      h.neighborsInto_eq, fun e he => h.entryPoint_eq he, h.rowIdSlice_eq,
      fun M H query filter k ef => kNnSearch_terminates k ef⟩

end StrataDB.Index.SegmentReader
