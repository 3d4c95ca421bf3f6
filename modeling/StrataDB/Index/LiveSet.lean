import Mathlib.Data.List.Basic
import Mathlib.Data.Nat.Basic
import Mathlib.Order.Defs.LinearOrder

/-! A dense bitset of row ids (`index/src/live_set.rs`). Membership in it is
membership in the list it was built from. -/

namespace StrataDB.Index

/-- One bit per row id, sixty-four to a word. -/
structure LiveSet where
  bits : List (BitVec 64)
  deriving DecidableEq

namespace LiveSet

/-- Set the bit of one row id. -/
def setBit (bits : List (BitVec 64)) (id : ℕ) : List (BitVec 64) :=
  bits.modify (id / 64) (· ||| 1#64 <<< (id % 64))

/-- `from_row_ids`: as many words as the largest id needs. -/
def fromRowIds (rowIds : List ℕ) : LiveSet :=
  ⟨rowIds.foldl setBit (List.replicate (rowIds.foldl max 0 / 64 + 1) 0#64)⟩

/-- `contains`; an id past the last word is no member. -/
def contains (s : LiveSet) (id : ℕ) : Bool :=
  match s.bits[id / 64]? with
  | some word => word.getLsbD (id % 64)
  | none => false

/-- `byte_size`. -/
def byteSize (s : LiveSet) : ℕ := 8 * s.bits.length

theorem getLsbD_setBit_word (word : BitVec 64) {i j : ℕ} (hi : i < 64) :
    (word ||| 1#64 <<< j).getLsbD i = (word.getLsbD i || decide (i = j)) := by
  rw [BitVec.getLsbD_or, BitVec.getLsbD_shiftLeft]
  congr 1
  rcases Nat.lt_trichotomy i j with h | rfl | h
  · simp [h, Nat.ne_of_lt h]
  · simp [hi]
  · have hsub : ¬ i - j = 0 := by omega
    simp [hi, BitVec.getLsbD_one, hsub, Nat.ne_of_gt h]

theorem contains_setBit {bits : List (BitVec 64)} {id : ℕ} (h : id / 64 < bits.length) (i : ℕ) :
    contains ⟨setBit bits id⟩ i = (contains ⟨bits⟩ i || decide (i = id)) := by
  unfold contains setBit
  dsimp only
  rw [List.getElem?_modify]
  by_cases hword : id / 64 = i / 64
  · simp only [hword, if_true]
    rw [← hword, List.getElem?_eq_getElem h]
    have hbit := getLsbD_setBit_word bits[id / 64] (i := i % 64) (j := id % 64)
      (Nat.mod_lt _ (by decide))
    have hsame : i % 64 = id % 64 ↔ i = id := by omega
    simpa [hsame] using hbit
  · have hne : i ≠ id := by
      rintro rfl
      exact hword rfl
    simp [hword, hne]

theorem length_setBit (bits : List (BitVec 64)) (id : ℕ) :
    (setBit bits id).length = bits.length :=
  List.length_modify _ _ _

variable {ids : List ℕ}

theorem contains_foldl {bits : List (BitVec 64)} (h : ∀ id ∈ ids, id / 64 < bits.length) (i : ℕ) :
    contains ⟨ids.foldl setBit bits⟩ i = (contains ⟨bits⟩ i || decide (i ∈ ids)) := by
  induction ids generalizing bits with
  | nil => simp
  | cons id ids ih =>
    rw [List.forall_mem_cons] at h
    rw [List.foldl_cons, ih (by rw [length_setBit]; exact h.2), contains_setBit h.1]
    simp [Bool.or_assoc]

theorem le_foldl_max (start : ℕ) :
    start ≤ ids.foldl max start ∧ ∀ id ∈ ids, id ≤ ids.foldl max start := by
  induction ids generalizing start with
  | nil => simp
  | cons id ids ih =>
    obtain ⟨hstart, hall⟩ := ih (max start id)
    refine ⟨le_trans (le_max_left _ _) hstart, fun j hj => ?_⟩
    rcases List.mem_cons.mp hj with rfl | hj
    · exact le_trans (le_max_right _ _) hstart
    · exact hall j hj

theorem contains_replicate (n i : ℕ) : contains ⟨List.replicate n 0#64⟩ i = false := by
  unfold contains
  dsimp only
  rw [List.getElem?_replicate]
  by_cases hi : i / 64 < n
  · simp [hi]
  · simp [hi]

/-- The set holds exactly the ids it was built from. -/
@[simp] theorem contains_fromRowIds (ids : List ℕ) (i : ℕ) :
    (fromRowIds ids).contains i = decide (i ∈ ids) := by
  have hfit : ∀ id ∈ ids,
      id / 64 < (List.replicate (ids.foldl max 0 / 64 + 1) 0#64).length := by
    intro id hid
    rw [List.length_replicate]
    exact Nat.lt_succ_of_le (Nat.div_le_div_right ((le_foldl_max 0).2 id hid))
  rw [fromRowIds, contains_foldl hfit, contains_replicate, Bool.false_or]

end LiveSet

end StrataDB.Index
