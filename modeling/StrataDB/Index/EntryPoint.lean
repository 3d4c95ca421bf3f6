import Mathlib.Data.Nat.Bitwise
import Mathlib.Logic.Function.Basic
import StrataDB.Index.Hnsw
import StrataDB.Lib.Transition

/-! The entry point of the index while any number of threads insert (`EntryPoint` in
`index/src/graph.rs`). It is one word that holds a row id and a level. Each thread first
tries to claim the empty word and, if another one has, advances it unless the level it
finds is high enough. A step is one atomic access to the word.

The level in the word only grows, which is why a thread that returned stays satisfied
and why a word that is found again after a load is as good as the one that was loaded. -/

namespace StrataDB.Index.EntryPoint

open Lib Hnsw

/-! ### The word -/

/-- `NO_ENTRY`. -/
def noEntry : ℕ := 2 ^ 64 - 1

/-- `pack`: the level is clamped. -/
def pack (rowId level : ℕ) : ℕ := (rowId <<< 8) % 2 ^ 64 ||| min level levelMask

/-- `unpack`. -/
def unpack (packed : ℕ) : ℕ × ℕ := (packed >>> 8, packed &&& levelMask)

theorem pack_eq {rowId : ℕ} (h : rowId < 2 ^ 56 - 1) (level : ℕ) :
    pack rowId level = rowId * 256 + min level levelMask := by
  have hlevel : min level levelMask < 2 ^ 8 := by
    have := min_le_right level levelMask
    unfold levelMask at *
    omega
  have hword : rowId <<< 8 = rowId * 256 := by rw [Nat.shiftLeft_eq]
  rw [pack, Nat.mod_eq_of_lt (by omega), ← Nat.shiftLeft_add_eq_or_of_lt hlevel, hword]

theorem pack_ne_noEntry {rowId : ℕ} (h : rowId < 2 ^ 56 - 1) (level : ℕ) :
    pack rowId level ≠ noEntry := by
  have hlevel := min_le_right level levelMask
  rw [pack_eq h, noEntry]
  unfold levelMask at *
  omega

theorem unpack_pack {rowId : ℕ} (h : rowId < 2 ^ 56 - 1) (level : ℕ) :
    unpack (pack rowId level) = (rowId, min level levelMask) := by
  have hlevel := min_le_right level levelMask
  have hmod : ∀ n, n &&& levelMask = n % 2 ^ 8 := fun n => Nat.and_two_pow_sub_one_eq_mod n 8
  rw [unpack, pack_eq h, hmod, Nat.shiftRight_eq_div_pow, Prod.mk.injEq]
  unfold levelMask at *
  omega

/-! ### The threads -/

/-- What a thread proposes. -/
structure Proposal where
  rowId : ℕ
  level : ℕ

/-- Where a thread is: before the exchange of `claim_if_empty`, whose error is what the
word held; before the load and before the exchange of `advance_if_higher`; or returned,
and whether its claim succeeded. -/
inductive Pc
  | claim
  | load (existing : ℕ × ℕ)
  | exchange (existing : ℕ × ℕ) (current : ℕ)
  | done (claimed : Bool)
  deriving DecidableEq

structure State (ι : Type) where
  packed : ℕ
  pc : ι → Pc

/-- `EntryPoint::get`. -/
def State.get {ι : Type} (s : State ι) : Option (ℕ × ℕ) :=
  if s.packed = noEntry then none else some (unpack s.packed)

/-- One access of a thread to the word, and where the thread is then. -/
def access (p : Proposal) (packed : ℕ) : Pc → Option (ℕ × Pc)
  | .claim =>
    if packed = noEntry then some (pack p.rowId p.level, .done true)
    else some (packed, .load (unpack packed))
  | .load existing =>
    if packed ≠ noEntry ∧ p.level ≤ (unpack packed).2 then some (packed, .done false)
    else some (packed, .exchange existing packed)
  | .exchange existing current =>
    if packed = current then some (pack p.rowId p.level, .done false)
    else some (packed, .load existing)
  | .done _ => none

/-- Every thread inserts one row; any thread may take the next step. -/
def system {ι : Type} [DecidableEq ι] (threads : ι → Proposal) :
    TransitionSystem (State ι) ι where
  init s := s.packed = noEntry ∧ ∀ i, s.pc i = .claim
  step s i := (access (threads i) s.packed (s.pc i)).map fun r =>
    ⟨r.1, Function.update s.pc i r.2⟩

variable {ι : Type} {threads : ι → Proposal} {s s' : State ι} {i : ι}

theorem step_cases [DecidableEq ι] (hs : (system threads).step s i = some s') :
    access (threads i) s.packed (s.pc i) = some (s'.packed, s'.pc i) ∧
      ∀ k, k ≠ i → s'.pc k = s.pc k := by
  obtain ⟨r, hr, rfl⟩ := Option.map_eq_some_iff.mp hs
  refine ⟨?_, fun k hk => Function.update_of_ne hk _ _⟩
  rw [hr]
  exact congrArg (fun pc => some (r.1, pc)) (Function.update_self i r.2 s.pc).symm

/-- The pair that a thread proposes, as the word holds it. -/
def Proposal.pair (p : Proposal) : ℕ × ℕ := (p.rowId, min p.level levelMask)

/-! ### The invariant -/

/-- What a thread knows. -/
def ThreadOk (threads : ι → Proposal) (packed : ℕ) (i : ι) : Pc → Prop
  | .claim => True
  | .load existing => ∃ j, existing = (threads j).pair
  | .exchange existing current => (∃ j, existing = (threads j).pair) ∧
      ∃ j, current = pack (threads j).rowId (threads j).level ∧
        (threads j).pair.2 ≤ (threads i).pair.2
  | .done _ => (threads i).pair.2 ≤ (unpack packed).2

structure Inv (threads : ι → Proposal) (s : State ι) : Prop where
  word : (s.packed = noEntry ∧ ∀ i, s.pc i = .claim) ∨
    ((∃ j, s.packed = pack (threads j).rowId (threads j).level) ∧ ∃! i, s.pc i = .done true)
  thread : ∀ i, ThreadOk threads s.packed i (s.pc i)

/-- The word after a step: as before, or the proposal of the thread over nothing or over
a level that is no higher. -/
def Advances (p : Proposal) (packed packed' : ℕ) : Prop :=
  packed' = packed ∨ packed' = pack p.rowId p.level ∧
    (packed = noEntry ∨ packed ≠ noEntry ∧ (unpack packed).2 ≤ p.pair.2)

section

variable (hids : ∀ i, (threads i).rowId < 2 ^ 56 - 1)

include hids

theorem unpack_proposed (j : ι) :
    unpack (pack (threads j).rowId (threads j).level) = (threads j).pair :=
  unpack_pack (hids j) _

theorem Inv.packed_ne (h : Inv threads s) (hpc : s.pc i ≠ .claim) : s.packed ≠ noEntry := by
  rcases h.word with ⟨-, hall⟩ | ⟨⟨j, hj⟩, -⟩
  · exact absurd (hall i) hpc
  · exact hj ▸ pack_ne_noEntry (hids j) _

/-- What a step of one thread does to the word, to its success and to what it knows. -/
theorem access_spec {packed : ℕ} {pc : Pc} (h : Inv threads s)
    (hr : access (threads i) s.packed (s.pc i) = some (packed, pc)) :
    Advances (threads i) s.packed packed ∧ ThreadOk threads packed i pc ∧ packed ≠ noEntry ∧
      (pc = .done true ↔ s.packed = noEntry) ∧ s.pc i ≠ .done true := by
  have hown := unpack_proposed hids i
  have hset : ∀ {packed}, packed ≠ noEntry → packed = s.packed →
      ∃ j, packed = pack (threads j).rowId (threads j).level := by
    rintro _ hne rfl
    rcases h.word with ⟨hword, -⟩ | ⟨hword, -⟩
    · exact absurd hword hne
    · exact hword
  have hthread := h.thread i
  cases hpc : s.pc i with
  | claim =>
    rw [hpc, access] at hr
    split_ifs at hr with hempty <;> cases hr
    · refine ⟨.inr ⟨rfl, .inl hempty⟩, ?_, pack_ne_noEntry (hids i) _, by simp [hempty], by simp⟩
      exact (congrArg Prod.snd hown).ge
    · obtain ⟨j, hj⟩ := hset hempty rfl
      refine ⟨.inl rfl, ⟨j, ?_⟩, hempty, by simp [hempty], by simp⟩
      rw [hj, unpack_proposed hids]
  | load existing =>
    rw [hpc] at hthread
    have hne : s.packed ≠ noEntry := h.packed_ne hids (by rw [hpc]; simp)
    rw [hpc, access] at hr
    split_ifs at hr with hhigh <;> cases hr
    · exact ⟨.inl rfl, (min_le_left _ _).trans hhigh.2, hne, by simp [hne], by simp⟩
    · obtain ⟨j, hj⟩ := hset hne rfl
      refine ⟨.inl rfl, ⟨hthread, j, hj, ?_⟩, hne, by simp [hne], by simp⟩
      -- The level was compared before it is clamped, and the level found is clamped.
      have hlow : (threads j).pair.2 < (threads i).level := by
        rw [← unpack_proposed hids, ← hj]
        exact Nat.lt_of_not_le fun hle => hhigh ⟨hne, hle⟩
      exact le_min hlow.le (min_le_right _ _)
  | exchange existing current =>
    rw [hpc] at hthread
    obtain ⟨hexisting, j, hj, hlow⟩ := hthread
    have hne : s.packed ≠ noEntry := h.packed_ne hids (by rw [hpc]; simp)
    rw [hpc, access] at hr
    split_ifs at hr with hsame <;> cases hr
    · refine ⟨.inr ⟨rfl, .inr ⟨hne, ?_⟩⟩, (congrArg Prod.snd hown).ge,
        pack_ne_noEntry (hids i) _, by simp [hne], by simp⟩
      rw [hsame, hj, unpack_proposed hids]
      exact hlow
    · exact ⟨.inl rfl, hexisting, hne, by simp [hne], by simp⟩
  | done claimed =>
    rw [hpc] at hr
    cases hr

/-- The level in a word that holds one does not fall. -/
theorem Advances.level_le {packed packed' : ℕ} (h : Advances (threads i) packed packed')
    (hne : packed ≠ noEntry) : (unpack packed).2 ≤ (unpack packed').2 := by
  rcases h with rfl | ⟨rfl, hempty | ⟨-, hle⟩⟩
  · exact le_rfl
  · exact absurd hempty hne
  · rw [unpack_proposed hids]
    exact hle

variable [DecidableEq ι]

theorem Inv.step (h : Inv threads s) (hs : (system threads).step s i = some s') :
    Inv threads s' := by
  obtain ⟨hr, hother⟩ := step_cases hs
  obtain ⟨hword, hthread, hne, hclaimed, hopen⟩ := access_spec hids h hr
  constructor
  · right
    rcases h.word with ⟨hempty, hall⟩ | ⟨⟨j, hj⟩, w, hw, hunique⟩
    · refine ⟨⟨i, ?_⟩, i, hclaimed.mpr hempty, fun k hk => ?_⟩
      · rcases hword with heq | ⟨heq, -⟩
        · exact absurd (heq.trans hempty) hne
        · exact heq
      · by_contra hki
        dsimp only at hk
        rw [hother k hki, hall] at hk
        cases hk
    · have hset : s.packed ≠ noEntry := hj ▸ pack_ne_noEntry (hids j) _
      refine ⟨?_, w, (hother w fun heq => hopen (heq ▸ hw)).trans hw, fun k hk => ?_⟩
      · rcases hword with heq | ⟨heq, -⟩
        · exact ⟨j, heq.trans hj⟩
        · exact ⟨i, heq⟩
      · by_cases hki : k = i
        · exact absurd (hclaimed.mp (hki ▸ hk)) hset
        · exact hunique k ((hother k hki).symm.trans hk)
  · intro k
    by_cases hki : k = i
    · exact hki ▸ hthread
    · rw [hother k hki]
      have hk := h.thread k
      cases hpc : s.pc k with
      | done claimed =>
        rw [hpc] at hk
        exact hk.trans (hword.level_le hids (h.packed_ne hids (by rw [hpc]; simp)))
      | claim => trivial
      | load existing => rwa [hpc] at hk
      | exchange existing current => rwa [hpc] at hk

theorem inv_of_reachable (h : (system threads).Reachable s) : Inv threads s :=
  h.invariant (fun _ h0 => ⟨.inl h0, fun k => by rw [h0.2 k]; trivial⟩)
    fun _ _ _ _ hinv hs => hinv.step hids hs

/-- Once there is an entry point, its level only grows. -/
theorem level_mono {labels : List ι} (h : Inv threads s) {e : ℕ × ℕ} (he : s.get = some e)
    (hrun : (system threads).run s labels = some s') : ∃ e', s'.get = some e' ∧ e.2 ≤ e'.2 := by
  induction labels generalizing s e with
  | nil =>
    cases hrun
    exact ⟨e, he, le_rfl⟩
  | cons i labels ih =>
    obtain ⟨s₁, hs, hrun⟩ := Option.bind_eq_some_iff.mp hrun
    obtain ⟨hword, -, hne, -⟩ := access_spec hids h (step_cases hs).1
    obtain ⟨hset, heq⟩ := Option.ite_none_left_eq_some.mp he
    obtain ⟨e', he', hle⟩ := ih (h.step hids hs) (if_neg hne) hrun
    refine ⟨e', he', le_trans ?_ hle⟩
    rw [← Option.some.inj heq]
    exact hword.level_le hids hset

end

section

variable [DecidableEq ι]

/-- Every run of any number of threads: one claim succeeds, whatever is seen of the entry
point was proposed, its level only grows, and at the end it is the highest one. -/
theorem entry_point_concurrent (threads : ι → Proposal)
    (hids : ∀ i, (threads i).rowId < 2 ^ 56 - 1) (s : State ι)
    (h : (system threads).Reachable s) :
    ((∃ i, s.pc i ≠ .claim) → ∃! i, s.pc i = .done true) ∧
    ((∀ e, s.get = some e → ∃ j, e = (threads j).pair) ∧
      (∀ i e, s.pc i = .load e → ∃ j, e = (threads j).pair) ∧
      ∀ i e current, s.pc i = .exchange e current → current ≠ noEntry ∧
        ∃ j, unpack current = (threads j).pair) ∧
    (∀ labels s' e, s.get = some e → (system threads).run s labels = some s' →
      ∃ e', s'.get = some e' ∧ e.2 ≤ e'.2) ∧
    (Nonempty ι → (∀ i, ∃ claimed, s.pc i = .done claimed) →
      ∃ j, s.get = some (threads j).pair ∧ ∀ i, (threads i).pair.2 ≤ (threads j).pair.2) := by
  have hinv := inv_of_reachable hids h
  have hget : s.packed ≠ noEntry → ∃ j, s.get = some (threads j).pair := by
    intro hne
    rcases hinv.word with ⟨hword, -⟩ | ⟨⟨j, hj⟩, -⟩
    · exact absurd hword hne
    · exact ⟨j, by rw [State.get, if_neg hne, hj, unpack_proposed hids]⟩
  refine ⟨fun ⟨i, hi⟩ => ?_, ⟨fun e he => ?_, fun i e hpc => ?_, fun i e current hpc => ?_⟩,
    fun labels s' e he hrun => level_mono hids hinv he hrun, fun ⟨i⟩ hdone => ?_⟩
  · rcases hinv.word with ⟨-, hall⟩ | ⟨-, hunique⟩
    · exact absurd (hall i) hi
    · exact hunique
  · obtain ⟨hne, -⟩ := Option.ite_none_left_eq_some.mp he
    obtain ⟨j, hj⟩ := hget hne
    exact ⟨j, Option.some.inj (he.symm.trans hj)⟩
  · have hi := hinv.thread i
    rwa [hpc] at hi
  · have hi := hinv.thread i
    rw [hpc] at hi
    obtain ⟨-, j, rfl, -⟩ := hi
    exact ⟨pack_ne_noEntry (hids j) _, j, unpack_proposed hids j⟩
  · have hne : s.packed ≠ noEntry := hinv.packed_ne hids (i := i) (by
      obtain ⟨claimed, hi⟩ := hdone i
      rw [hi]
      simp)
    obtain ⟨j, hj⟩ := hget hne
    refine ⟨j, hj, fun k => ?_⟩
    have hk := hinv.thread k
    obtain ⟨claimed, hpc⟩ := hdone k
    rw [hpc] at hk
    rw [State.get, if_neg hne] at hj
    rwa [← Option.some.inj hj]

/-- Three threads, one of them with a level that is clamped. -/
def threeThreads : Fin 3 → Proposal
  | 0 => ⟨7, 1⟩
  | 1 => ⟨8, 3⟩
  | 2 => ⟨9, 300⟩

/-- The second thread is overtaken between its load and its exchange. -/
theorem entry_point_concurrent_three :
    ∃ s, (system threeThreads).run ⟨noEntry, fun _ => .claim⟩ [0, 1, 2, 1, 2, 2, 1, 1] = some s ∧
      s.get = some (9, 255) ∧ ∃ j, s.get = some (threeThreads j).pair ∧
        ∀ i, (threeThreads i).pair.2 ≤ (threeThreads j).pair.2 := by
  have hrun : ((system threeThreads).run ⟨noEntry, fun _ => .claim⟩
      [0, 1, 2, 1, 2, 2, 1, 1]).map (fun s => (s.get, s.pc 0, s.pc 1, s.pc 2)) =
      some (some (9, 255), .done true, .done false, .done false) := by
    decide +kernel
  obtain ⟨s, hs, hout⟩ := Option.map_eq_some_iff.mp hrun
  simp only [Prod.mk.injEq] at hout
  obtain ⟨hget, h0, h1, h2⟩ := hout
  refine ⟨s, hs, hget, (entry_point_concurrent threeThreads (by decide) s
    (.run (.init ⟨rfl, fun _ => rfl⟩) hs)).2.2.2 ⟨0⟩ fun i => ?_⟩
  match i with
  | 0 => exact ⟨_, h0⟩
  | 1 => exact ⟨_, h1⟩
  | 2 => exact ⟨_, h2⟩

end

end StrataDB.Index.EntryPoint
