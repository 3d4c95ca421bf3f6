import Mathlib.Data.List.Basic
import Mathlib.Data.List.Infix
import Mathlib.Data.Nat.Digits.Defs

/-! Text as a list of characters: what follows or precedes a fixed part, and
decimal numbers of a fixed width. -/

namespace StrataDB.Lib

abbrev Text := List Char

instance : LawfulBEq Text := inferInstance

namespace Text

variable {text head : Text} {c : Char} {bound : ℕ}

@[simp] theorem dropPrefix?_eq_some {rest : Text} :
    text.dropPrefix? head = some rest ↔ text = head ++ rest := by
  rw [List.dropPrefix?_eq_some_iff]
  simp only [beq_iff_eq, exists_eq_right]

theorem dropPrefix?_eq_none : text.dropPrefix? head = none ↔ ¬ head <+: text := by
  rw [Option.eq_none_iff_forall_not_mem]
  simp only [Option.mem_def, dropPrefix?_eq_some]
  exact ⟨fun h ⟨rest, hr⟩ => h rest hr.symm, fun h rest hr => h ⟨rest, hr.symm⟩⟩

/-- The digits of a number, with zeros in front up to the given width. -/
def pad (width n : ℕ) : Text :=
  List.replicate (width - (Nat.toDigits 10 n).length) '0' ++ Nat.toDigits 10 n

/-- An unsigned number below a bound: digits, with at most one plus sign in
front of them. -/
def parseUnsigned (bound : ℕ) (text : Text) : Option ℕ :=
  let digits := (text.dropPrefix? ['+']).getD text
  if digits ≠ [] ∧ digits.all Char.isDigit = true ∧ Nat.ofDigitChars 10 digits 0 < bound then
    some (Nat.ofDigitChars 10 digits 0)
  else none

theorem isDigit_of_mem_pad {width n : ℕ} (h : c ∈ pad width n) : c.isDigit = true := by
  rcases List.mem_append.mp h with h | h
  · rw [(List.mem_replicate.mp h).2]
    rfl
  · exact Nat.isDigit_of_mem_toDigits (by decide) (by decide) h

variable (width n : ℕ)

theorem pad_ne_nil : pad width n ≠ [] := by
  intro h
  exact Nat.toDigits_ne_nil (List.append_eq_nil_iff.mp h).2

@[simp] theorem ofDigitChars_pad : Nat.ofDigitChars 10 (pad width n) 0 = n := by
  rw [pad, Nat.ofDigitChars_append, Nat.ofDigitChars_replicate_zero, Nat.mul_zero,
    Nat.ofDigitChars_toDigits (by decide) (by decide)]

/-- A padded number parses to itself. -/
theorem parseUnsigned_pad {n : ℕ} (h : n < bound) : parseUnsigned bound (pad width n) = some n := by
  have hsign : (pad width n).dropPrefix? ['+'] = none := by
    rw [dropPrefix?_eq_none]
    rintro ⟨rest, hr⟩
    have hplus : '+' ∈ pad width n := hr ▸ List.mem_cons_self
    exact absurd (isDigit_of_mem_pad hplus) (by decide)
  simp only [parseUnsigned, hsign, Option.getD_none, ofDigitChars_pad]
  exact if_pos ⟨pad_ne_nil width n, List.all_eq_true.mpr fun c hc => isDigit_of_mem_pad hc, h⟩

theorem lt_of_parseUnsigned {n : ℕ} (h : parseUnsigned bound text = some n) : n < bound := by
  simp only [parseUnsigned, Option.ite_none_right_eq_some, Option.some.injEq] at h
  obtain ⟨⟨-, -, hlt⟩, rfl⟩ := h
  exact hlt

@[simp] theorem pad_zero : pad 0 n = Nat.toDigits 10 n := by
  rw [pad, Nat.zero_sub, List.replicate_zero, List.nil_append]

theorem notMem_toDigits (hc : c.isDigit = false) (n : ℕ) : c ∉ Nat.toDigits 10 n := by
  intro h
  rw [Nat.isDigit_of_mem_toDigits (by decide) (by decide) h] at hc
  cases hc

/-- No part of a split holds the separator. -/
theorem notMem_of_mem_splitOn {c : Char} {text part : Text} (h : part ∈ text.splitOn c) :
    c ∉ part := by
  by_cases hc : c ∈ text
  · obtain ⟨before, after, rfl⟩ := List.append_of_mem hc
    rw [List.splitOn_append_cons_self, List.mem_append] at h
    rcases h with h | h
    · exact notMem_of_mem_splitOn h
    · exact notMem_of_mem_splitOn h
  · have hsingle := @List.splitOn_intercalate _ [text] _ _ c (by simpa using hc) (by simp)
    rw [List.intercalate_singleton] at hsingle
    rw [hsingle, List.mem_singleton] at h
    rwa [h]
termination_by text.length

end Text

end StrataDB.Lib
