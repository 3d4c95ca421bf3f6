import Mathlib.Algebra.Order.Ring.Nat
import Mathlib.Data.List.GetD
import StrataDB.Lib.Except

/-! Byte strings read as little-endian machine integers, and the arithmetic of a
64-bit machine with its overflows. A part of a string is taken with both ends checked
(`slice`), and viewed as words of a fixed width if it is aligned for them (`view`; the
string itself starts at an aligned address). -/

namespace StrataDB.Lib

abbrev Bytes := List UInt8

/-! ### Machine arithmetic -/

/-- What ends a computation early: arithmetic that overflows, or an error that it
reports itself. -/
inductive Abort (ε : Type*)
  | overflow
  | failed (error : ε)
  deriving DecidableEq

/-- The computation reports an error of its own. -/
def Abort.Reported {ε : Type*} (a : Abort ε) : Prop := ∃ error, a = .failed error

namespace Word

def checkedAdd (a b : ℕ) : Option ℕ := if a + b < 2 ^ 64 then some (a + b) else none

def checkedMul (a b : ℕ) : Option ℕ := if a * b < 2 ^ 64 then some (a * b) else none

variable {ε : Type*}

/-- Addition that overflows. -/
def add (a b : ℕ) : Except (Abort ε) ℕ := orElse (checkedAdd a b) .overflow

/-- Multiplication that overflows. -/
def mul (a b : ℕ) : Except (Abort ε) ℕ := orElse (checkedMul a b) .overflow

variable {a b c : ℕ}

@[simp] theorem checkedAdd_eq_some : checkedAdd a b = some c ↔ a + b < 2 ^ 64 ∧ c = a + b := by
  unfold checkedAdd
  split
  · rename_i h
    exact ⟨fun hc => ⟨h, (Option.some.inj hc).symm⟩, fun hc => by rw [hc.2]⟩
  · rename_i h
    exact ⟨nofun, fun hc => absurd hc.1 h⟩

@[simp] theorem checkedMul_eq_some : checkedMul a b = some c ↔ a * b < 2 ^ 64 ∧ c = a * b := by
  unfold checkedMul
  split
  · rename_i h
    exact ⟨fun hc => ⟨h, (Option.some.inj hc).symm⟩, fun hc => by rw [hc.2]⟩
  · rename_i h
    exact ⟨nofun, fun hc => absurd hc.1 h⟩

theorem add_eq_ok : (add a b : Except (Abort ε) ℕ) = .ok c ↔ a + b < 2 ^ 64 ∧ c = a + b := by
  rw [add, orElse_eq_ok, checkedAdd_eq_some]

theorem mul_eq_ok : (mul a b : Except (Abort ε) ℕ) = .ok c ↔ a * b < 2 ^ 64 ∧ c = a * b := by
  rw [mul, orElse_eq_ok, checkedMul_eq_some]

theorem add_of_lt (h : a + b < 2 ^ 64) :
    (add a b : Except (Abort ε) ℕ) = .ok (a + b) := add_eq_ok.mpr ⟨h, rfl⟩

theorem mul_of_lt (h : a * b < 2 ^ 64) :
    (mul a b : Except (Abort ε) ℕ) = .ok (a * b) := mul_eq_ok.mpr ⟨h, rfl⟩

end Word

/-! ### Parts of a list -/

section

variable {α : Type*}

/-- `slice.get(i..j)`. -/
def slice (xs : List α) (i j : ℕ) : Option (List α) :=
  if i ≤ j ∧ j ≤ xs.length then some ((xs.drop i).take (j - i)) else none

variable {xs ys : List α} {i j k : ℕ}

theorem slice_eq_some :
    slice xs i j = some ys ↔ i ≤ j ∧ j ≤ xs.length ∧ ys = (xs.drop i).take (j - i) := by
  unfold slice
  split
  · rename_i h
    exact ⟨fun hs => ⟨h.1, h.2, (Option.some.inj hs).symm⟩, fun hs => by rw [hs.2.2]⟩
  · rename_i h
    exact ⟨nofun, fun hs => absurd ⟨hs.1, hs.2.1⟩ h⟩

theorem length_of_slice (h : slice xs i j = some ys) : ys.length = j - i := by
  obtain ⟨-, hj, rfl⟩ := slice_eq_some.mp h
  rw [List.length_take, List.length_drop]
  omega

theorem mem_of_slice (h : slice xs i j = some ys) {y : α} (hy : y ∈ ys) : y ∈ xs := by
  obtain ⟨-, -, rfl⟩ := slice_eq_some.mp h
  exact List.mem_of_mem_drop (List.mem_of_mem_take hy)

end

/-! ### Little-endian words -/

namespace Bytes

/-- The little-endian value of the bytes. -/
def value : Bytes → ℕ
  | [] => 0
  | b :: bs => b.toNat + 256 * value bs

variable (bs : Bytes) {k w i j : ℕ} {ws : List ℕ}

theorem value_lt : value bs < 256 ^ bs.length := by
  induction bs with
  | nil => exact Nat.one_pos
  | cons b bs ih =>
    have hb := b.toNat_lt
    rw [value, List.length_cons, Nat.pow_succ]
    omega

/-- The words of `k` bytes that the bytes are made of. -/
def words (k : ℕ) (bs : Bytes) : List ℕ :=
  (List.range (bs.length / k)).map fun i => value ((bs.drop (i * k)).take k)

@[simp] theorem length_words (k : ℕ) (bs : Bytes) : (words k bs).length = bs.length / k := by
  rw [words, List.length_map, List.length_range]

theorem words_lt {bs : Bytes} (h : w ∈ words k bs) : w < 256 ^ k := by
  obtain ⟨i, -, rfl⟩ := List.mem_map.mp h
  refine Nat.lt_of_lt_of_le (value_lt _) (Nat.pow_le_pow_right (by decide) ?_)
  rw [List.length_take]
  exact Nat.min_le_left _ _

/-- The bytes from `i` to `j` as words of `k` bytes, if they are aligned and none is cut
off (`bytemuck::try_cast_slice`). -/
def view (k : ℕ) (bs : Bytes) (i j : ℕ) : Option (List ℕ) :=
  (slice bs i j).bind fun part =>
    if i % k = 0 ∧ part.length % k = 0 then some (words k part) else none

theorem view_eq_some {bs : Bytes} :
    view k bs i j = some ws ↔ i ≤ j ∧ j ≤ bs.length ∧ i % k = 0 ∧ (j - i) % k = 0 ∧
      ws = words k ((bs.drop i).take (j - i)) := by
  unfold view
  constructor
  · intro h
    obtain ⟨part, hpart, h⟩ := Option.bind_eq_some_iff.mp h
    have hlen := length_of_slice hpart
    obtain ⟨hij, hj, rfl⟩ := slice_eq_some.mp hpart
    split_ifs at h with haligned
    rw [hlen] at haligned
    exact ⟨hij, hj, haligned.1, haligned.2, (Option.some.inj h).symm⟩
  · rintro ⟨hij, hj, hi, hlen, rfl⟩
    have hpart : slice bs i j = some ((bs.drop i).take (j - i)) := slice_eq_some.mpr ⟨hij, hj, rfl⟩
    rw [hpart, Option.bind_some, length_of_slice hpart, if_pos ⟨hi, hlen⟩]

theorem length_of_view {bs : Bytes} (h : view k bs i j = some ws) : ws.length = (j - i) / k := by
  obtain ⟨-, hj, -, -, rfl⟩ := view_eq_some.mp h
  rw [length_words, List.length_take, List.length_drop]
  congr 1
  omega

theorem exists_view (count : ℕ) (hk : i % k = 0) (hlen : i + count * k ≤ bs.length) :
    ∃ ws, view k bs i (i + count * k) = some ws ∧ ws.length = (count * k) / k := by
  refine ⟨_, view_eq_some.mpr ⟨Nat.le_add_right _ _, hlen, hk, ?_, rfl⟩, ?_⟩
  · rw [Nat.add_sub_cancel_left, Nat.mul_mod_left]
  · rw [length_words, List.length_take, List.length_drop]
    congr 1
    omega

theorem view_lt {bs : Bytes} (h : view k bs i j = some ws) (hw : w ∈ ws) : w < 256 ^ k := by
  obtain ⟨-, -, -, -, rfl⟩ := view_eq_some.mp h
  exact words_lt hw

/-- The word of `k` bytes at this place, zero if there are not as many. -/
def wordAt (k : ℕ) (bs : Bytes) (off : ℕ) : ℕ := ((slice bs off (off + k)).map value).getD 0

theorem wordAt_lt (k : ℕ) (bs : Bytes) (off : ℕ) : wordAt k bs off < 256 ^ k := by
  unfold wordAt
  cases h : slice bs off (off + k) with
  | none => exact Nat.pow_pos (by decide)
  | some part =>
    have hlen := length_of_slice h
    rw [Nat.add_sub_cancel_left] at hlen
    exact hlen ▸ value_lt part

end Bytes

end StrataDB.Lib
