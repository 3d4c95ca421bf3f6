import Mathlib.Data.List.Dedup
import StrataDB.Lib.Grouping
import StrataDB.Lib.History
import StrataDB.Lib.List

/-! The bounded log of committed write sets (`txn/src/commit_log.rs`). -/

namespace StrataDB.Txn

open Lib

/-- What a conflict check answers. -/
inductive ConflictCheck
  | clean
  | conflict (rowIds : List ℕ)
  | insufficientHistory (oldestRetainedVersion : ℕ)
  deriving DecidableEq

/-- Entries in publication order; the capacity is never zero. -/
structure CommitLog where
  capacity : ℕ
  entries : List (ℕ × List ℕ)
  capacity_pos : 0 < capacity
  deriving DecidableEq

def hashWriteSetAbove : ℕ := 32

namespace CommitLog

def new (capacity : ℕ) : CommitLog := ⟨max capacity 1, [], by omega⟩

def push (log : CommitLog) (version : ℕ) (writeSet : List ℕ) : CommitLog :=
  { log with entries := ringPush log.capacity log.entries (version, writeSet) }

/-- `scan_for_contested` over the entries from the start of the range: each
touched row id once, in the order it is first met. -/
def scanForContested (entries : List (ℕ × List ℕ)) (upTo : ℕ) (touches : ℕ → Bool) :
    ConflictCheck :=
  let contested := (entries.takeWhile (fun e => e.1 ≤ upTo)).foldl (fun contested e =>
    e.2.foldl (fun contested rowId =>
      if touches rowId && !contested.contains rowId then contested ++ [rowId] else contested)
      contested) []
  if contested.isEmpty then .clean else .conflict contested

/-- `conflicts_with`: did a version in `(since, upTo]` write a row of `writeSet`?
The binary search for the start of the range is a `dropWhile`, since entries
ascend by version. -/
def conflictsWith (log : CommitLog) (since upTo : ℕ) (writeSet : List ℕ) : ConflictCheck :=
  if writeSet.isEmpty then .clean
  else if upTo ≤ since then .clean
  else match log.entries with
    | [] => .insufficientHistory (min (upTo + 1) (2 ^ 64 - 1))
    | (oldest, _) :: _ =>
      if oldest > since + 1 then .insufficientHistory oldest
      else
        let inRange := log.entries.dropWhile (fun e => e.1 ≤ since)
        if writeSet.length > hashWriteSetAbove then
          let hashed := writeSet.dedup
          scanForContested inRange upTo (fun rowId => hashed.contains rowId)
        else scanForContested inRange upTo (fun rowId => writeSet.contains rowId)

@[simp] theorem push_capacity (log : CommitLog) (v : ℕ) (ws : List ℕ) :
    (log.push v ws).capacity = log.capacity := rfl

@[simp] theorem push_entries (log : CommitLog) (v : ℕ) (ws : List ℕ) :
    (log.push v ws).entries = ringPush log.capacity log.entries (v, ws) := rfl

/-! ### What a check answers -/

variable (touches : ℕ → Bool) (met : List ℕ) {log : CommitLog} {since upTo : ℕ}

/-- The inner loop goes on with the row ids met before it. -/
theorem scan_row (rows : List ℕ) :
    rows.foldl (fun contested rowId =>
        if touches rowId && !contested.contains rowId then contested ++ [rowId] else contested)
        (firsts met) = firsts (met ++ rows.filter touches) := by
  induction rows generalizing met with
  | nil => rw [List.filter_nil, List.append_nil, List.foldl_nil]
  | cons r rows ih =>
    rw [List.foldl_cons]
    by_cases ht : touches r = true
    · have hstep : (if touches r && !(firsts met).contains r then firsts met ++ [r]
          else firsts met) = firsts (met ++ [r]) := by
        rw [firsts_concat]
        by_cases hr : r ∈ firsts met <;> simp [ht, hr]
      rw [hstep, ih, List.filter_cons_of_pos ht, List.append_assoc, List.singleton_append]
    · rw [if_neg (by simp [ht]), ih, List.filter_cons_of_neg ht]

theorem scan_entries (entries : List (ℕ × List ℕ)) :
    entries.foldl (fun contested e => e.2.foldl (fun contested rowId =>
        if touches rowId && !contested.contains rowId then contested ++ [rowId] else contested)
        contested) (firsts met) = firsts (met ++ (entries.flatMap Prod.snd).filter touches) := by
  induction entries generalizing met with
  | nil => rw [List.flatMap_nil, List.filter_nil, List.append_nil, List.foldl_nil]
  | cons e entries ih =>
    rw [List.foldl_cons, scan_row, ih, List.flatMap_cons, List.filter_append, List.append_assoc]

/-- Entries in strictly ascending version order. -/
def Ascending (log : CommitLog) : Prop := log.entries.Pairwise (fun a b => a.1 < b.1)

/-- On an ascending list the range `(since, upTo]` is a contiguous part. -/
theorem range_eq_filter {entries : List (ℕ × List ℕ)}
    (h : entries.Pairwise (fun a b => a.1 < b.1)) (since upTo : ℕ) :
    (entries.dropWhile (fun e => e.1 ≤ since)).takeWhile (fun e => e.1 ≤ upTo) =
      entries.filter (fun e => since < e.1 ∧ e.1 ≤ upTo) := by
  have hbelow : ∀ bound, entries.Pairwise fun a b =>
      decide (b.1 ≤ bound) = true → decide (a.1 ≤ bound) = true := fun bound =>
    h.imp fun hab hb => by
      rw [decide_eq_true_eq] at hb ⊢
      omega
  rw [dropWhile_eq_filter_not (hbelow since), takeWhile_eq_filter ((hbelow upTo).filter _),
    List.filter_filter]
  congr 1
  funext e
  grind

/-- The row ids of `writeSet` that a version in `(since, upTo]` wrote, each once,
in the order in which the log holds them. -/
def contestedRows (log : CommitLog) (since upTo : ℕ) (writeSet : List ℕ) : List ℕ :=
  firsts (((log.entries.filter fun e => since < e.1 ∧ e.1 ≤ upTo).flatMap Prod.snd).filter
    (· ∈ writeSet))

theorem mem_contestedRows {ws : List ℕ} {rowId : ℕ} :
    rowId ∈ log.contestedRows since upTo ws ↔
      rowId ∈ ws ∧ ∃ e ∈ log.entries, (since < e.1 ∧ e.1 ≤ upTo) ∧ rowId ∈ e.2 := by
  simp only [contestedRows, mem_firsts, List.mem_filter, List.mem_flatMap, decide_eq_true_eq]
  grind

/-- Both ways to look a row id up find the same rows. -/
theorem scanForContested_eq (hasc : log.Ascending) (since upTo : ℕ) (ws : List ℕ)
    {touches : ℕ → Bool} (ht : ∀ i, touches i = decide (i ∈ ws)) :
    scanForContested (log.entries.dropWhile (fun e => e.1 ≤ since)) upTo touches =
      if log.contestedRows since upTo ws = [] then .clean
      else .conflict (log.contestedRows since upTo ws) := by
  obtain rfl : touches = fun i => decide (i ∈ ws) := funext ht
  have hscan := scan_entries (fun i => decide (i ∈ ws)) []
    (log.entries.filter fun e => since < e.1 ∧ e.1 ≤ upTo)
  rw [List.nil_append] at hscan
  change List.foldl _ [] _ = log.contestedRows since upTo ws at hscan
  unfold scanForContested
  dsimp only at hscan ⊢
  rw [range_eq_filter hasc, hscan]
  simp only [List.isEmpty_iff]

/-- What the check of a write set that could conflict answers. -/
theorem conflictsWith_eq (hasc : log.Ascending) {ws : List ℕ} (hws : ws ≠ []) (hlt : since < upTo) :
    log.conflictsWith since upTo ws = match log.entries with
      | [] => .insufficientHistory (min (upTo + 1) (2 ^ 64 - 1))
      | (oldest, _) :: _ =>
        if oldest > since + 1 then .insufficientHistory oldest
        else if log.contestedRows since upTo ws = [] then .clean
        else .conflict (log.contestedRows since upTo ws) := by
  unfold conflictsWith
  rw [if_neg (by simpa using hws), if_neg (by omega)]
  dsimp only
  rw [scanForContested_eq hasc since upTo ws (by simp [List.mem_dedup]),
    scanForContested_eq hasc since upTo ws (by simp)]
  simp only [ite_self]

/-- A clean answer for rows that could conflict: the log reaches back to the
start of the range and no entry in it wrote one of them. -/
theorem conflictsWith_eq_clean (hasc : log.Ascending) {ws : List ℕ} (hws : ws ≠ [])
    (hlt : since < upTo) :
    log.conflictsWith since upTo ws = .clean ↔
      (∃ e rest, log.entries = e :: rest ∧ e.1 ≤ since + 1) ∧
        ∀ e ∈ log.entries, since < e.1 → e.1 ≤ upTo → ∀ rowId ∈ e.2, rowId ∉ ws := by
  have hnone : log.contestedRows since upTo ws = [] ↔
      ∀ e ∈ log.entries, since < e.1 → e.1 ≤ upTo → ∀ rowId ∈ e.2, rowId ∉ ws := by
    rw [List.eq_nil_iff_forall_not_mem]
    simp only [mem_contestedRows, not_and, not_exists]
    exact ⟨fun h e he h₁ h₂ rowId hrow hmem => h rowId hmem e he ⟨h₁, h₂⟩ hrow,
      fun h rowId hmem e he hin hrow => h e he hin.1 hin.2 rowId hrow hmem⟩
  rw [conflictsWith_eq hasc hws hlt, ← hnone]
  split
  · rename_i hnil
    simp [hnil]
  · rename_i oldest ws₀ rest hcons
    rw [hcons]
    split
    · rename_i hold
      simp only [reduceCtorEq, false_iff, not_and]
      rintro ⟨e, rest', he, hle⟩
      cases he
      dsimp only at hle
      omega
    · rename_i hold
      have hfront : ∃ e rest', (oldest, ws₀) :: rest = e :: rest' ∧ e.1 ≤ since + 1 :=
        ⟨_, _, rfl, by dsimp only; omega⟩
      split <;> simp_all

/-- The check is its specification, for a write set of any length; an empty log has
no oldest version, so it never reaches back far enough. -/
theorem conflict_check_exact (log : CommitLog) (hasc : log.Ascending) (since upTo : ℕ)
    (ws : List ℕ) :
    (ws = [] ∨ upTo ≤ since → log.conflictsWith since upTo ws = .clean) ∧
    ((∃ oldest, log.conflictsWith since upTo ws = .insufficientHistory oldest) ↔
      ws ≠ [] ∧ since < upTo ∧ ∀ e ∈ log.entries.head?, since + 1 < e.1) ∧
    (ws ≠ [] → since < upTo → (∃ e ∈ log.entries.head?, e.1 ≤ since + 1) →
      log.conflictsWith since upTo ws =
        if log.contestedRows since upTo ws = [] then .clean
        else .conflict (log.contestedRows since upTo ws)) := by
  have hclean : ws = [] ∨ upTo ≤ since → log.conflictsWith since upTo ws = .clean := by
    rintro (rfl | h)
    · rfl
    · unfold conflictsWith
      rw [if_pos h, ite_self]
  refine ⟨hclean, ⟨?_, ?_⟩, ?_⟩
  · rintro ⟨oldest, h⟩
    obtain hnone | ⟨hws, hlt⟩ : (ws = [] ∨ upTo ≤ since) ∨ ws ≠ [] ∧ since < upTo := by
      by_cases hws : ws = [] <;> by_cases hlt : since < upTo <;> simp_all
    · rw [hclean hnone] at h
      cases h
    · refine ⟨hws, hlt, ?_⟩
      rw [conflictsWith_eq hasc hws hlt] at h
      split at h
      · rename_i hnil
        simp [hnil]
      · rename_i hcons
        split at h
        · rename_i hold
          simpa [hcons] using hold
        · split at h <;> cases h
  · rintro ⟨hws, hlt, hold⟩
    rw [conflictsWith_eq hasc hws hlt]
    split
    · exact ⟨_, rfl⟩
    · rename_i hcons
      rw [if_pos (by simpa [hcons] using hold)]
      exact ⟨_, rfl⟩
  · rintro hws hlt ⟨e, he, hold⟩
    rw [conflictsWith_eq hasc hws hlt]
    split
    · rename_i hnil
      simp [hnil] at he
    · rename_i hcons
      obtain rfl : _ = e := by simpa [hcons] using he
      rw [if_neg (by simpa using hold)]

/-- Versions two and three wrote rows of a write set with a repeated id. -/
theorem conflict_check_exact_three :
    (⟨4, [(1, [7]), (2, [5, 9]), (3, [8, 5])], by decide⟩ : CommitLog).conflictsWith 1 3
        [8, 5, 5] = .conflict [5, 8] :=
  ((conflict_check_exact ⟨4, [(1, [7]), (2, [5, 9]), (3, [8, 5])], by decide⟩
    (by simp [Ascending]) 1 3 [8, 5, 5]).2.2 (by decide) (by decide)
      ⟨(1, [7]), rfl, by decide⟩).trans (by decide)

end CommitLog

end StrataDB.Txn
