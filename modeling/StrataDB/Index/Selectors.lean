import Mathlib.Data.List.Induction
import StrataDB.Arrow.Batch
import StrataDB.Lib.List
import StrataDB.Lib.Selection

/-! The selectors of a search over several segments (`index/src/segment_set.rs`).
Both keep the nearest `k` rows of a stream in which rows come back at other
distances: one as a list in the order of arrival, searched from end to end, the
other as an ordered set with an index. The second follows the first step by step,
so they return the same list. -/

namespace StrataDB.Index

open Lib Arrow

/-- A row and its distance. -/
abbrev Scored := ℕ × F32

/-- `total_cmp` says less. -/
def nearer (a b : F32) : Bool := decide (a.totalKey < b.totalKey)

/-- `COMPACT_SELECTOR_MAX_K`. -/
def compactSelectorMaxK : ℕ := 32

/-- `CompactTopKSelector`: the rows kept, in the order they came. -/
structure CompactTopKSelector where
  k : ℕ
  selected : List Scored

namespace CompactTopKSelector

/-- The last of the farthest rows. -/
def farthestIndex (selected : List Scored) : ℕ :=
  selected.zipIdx.foldl (fun farthest entry =>
    if nearer entry.1.2 ((selected[farthest]?).getD entry.1).2 then farthest else entry.2) 0

/-- The candidate takes the place of the farthest row if there is no other. -/
def place (s : CompactTopKSelector) (candidate : Scored) : CompactTopKSelector :=
  if s.selected.length = s.k then
    let farthest := farthestIndex s.selected
    match s.selected[farthest]? with
    | none => s
    | some entry =>
      if nearer candidate.2 entry.2 then
        { s with selected := s.selected.eraseIdx farthest ++ [candidate] }
      else s
  else { s with selected := s.selected ++ [candidate] }

def consider (s : CompactTopKSelector) (candidate : Scored) : CompactTopKSelector :=
  if s.k = 0 then s
  else
    match s.selected.find? fun entry => entry.1 == candidate.1 with
    | some existing =>
      if nearer candidate.2 existing.2 then
        { s with selected := s.selected.erase existing }.place candidate
      else s
    | none => s.place candidate

def intoSorted (s : CompactTopKSelector) : List Scored :=
  s.selected.mergeSort fun a b => !nearer b.2 a.2

end CompactTopKSelector

/-- `RankedCandidate`. -/
structure RankedCandidate where
  rowId : ℕ
  distance : F32
  sequence : ℕ
  deriving DecidableEq

/-- By distance, then in the order they came. -/
def RankedCandidate.before (a b : RankedCandidate) : Bool :=
  nearer a.distance b.distance ||
    (!nearer b.distance a.distance && decide (a.sequence < b.sequence))

/-- `IndexedTopKSelector`; the ranked rows are in ascending order. -/
structure IndexedTopKSelector where
  k : ℕ
  nextSequence : ℕ
  byRowId : List (ℕ × RankedCandidate)
  ranked : List RankedCandidate

namespace IndexedTopKSelector

def insertCandidate (s : IndexedTopKSelector) (candidate : Scored) : IndexedTopKSelector :=
  let ranked : RankedCandidate := ⟨candidate.1, candidate.2, s.nextSequence⟩
  { s with
    nextSequence := s.nextSequence + 1
    byRowId := (candidate.1, ranked) :: s.byRowId.filter fun entry => entry.1 ≠ candidate.1
    ranked := s.ranked.takeWhile (fun other => other.before ranked) ++
      ranked :: s.ranked.dropWhile fun other => other.before ranked }

def consider (s : IndexedTopKSelector) (candidate : Scored) : IndexedTopKSelector :=
  if s.k = 0 then s
  else
    match s.byRowId.lookup candidate.1 with
    | some existing =>
      if nearer candidate.2 existing.distance then
        { s with ranked := s.ranked.erase existing }.insertCandidate candidate
      else s
    | none =>
      if s.ranked.length = s.k then
        match s.ranked.getLast? with
        | none => s
        | some farthest =>
          if nearer candidate.2 farthest.distance then
            { s with
              ranked := s.ranked.erase farthest
              byRowId := s.byRowId.filter fun entry => entry.1 ≠ farthest.rowId
            }.insertCandidate candidate
          else s
      else s.insertCandidate candidate

def intoSorted (s : IndexedTopKSelector) : List Scored :=
  s.ranked.map fun candidate => (candidate.rowId, candidate.distance)

end IndexedTopKSelector

inductive TopKSelector
  | compact (selector : CompactTopKSelector)
  | indexed (selector : IndexedTopKSelector)

namespace TopKSelector

def new (k : ℕ) : TopKSelector :=
  if k ≤ compactSelectorMaxK then .compact ⟨k, []⟩ else .indexed ⟨k, 0, [], []⟩

def consider (s : TopKSelector) (candidate : Scored) : TopKSelector :=
  match s with
  | .compact selector => .compact (selector.consider candidate)
  | .indexed selector => .indexed (selector.consider candidate)

def intoSorted : TopKSelector → List Scored
  | .compact selector => selector.intoSorted
  | .indexed selector => selector.intoSorted

end TopKSelector

/-! ### Comparisons -/

variable {a b : F32}

theorem nearer_iff : nearer a b = true ↔ a.totalKey < b.totalKey := decide_eq_true_iff

theorem not_nearer_iff : nearer a b = false ↔ b.totalKey ≤ a.totalKey := by
  rw [nearer, decide_eq_false_iff_not, not_lt]

theorem RankedCandidate.before_iff {a b : RankedCandidate} :
    a.before b = true ↔ a.distance.totalKey < b.distance.totalKey ∨
      a.distance.totalKey = b.distance.totalKey ∧ a.sequence < b.sequence := by
  simp only [before, Bool.or_eq_true, Bool.and_eq_true, Bool.not_eq_true', nearer_iff,
    not_nearer_iff, decide_eq_true_eq]
  omega

/-- The rank by which rows are selected. -/
def Scored.rank (p : Scored) : ℤ := p.2.totalKey

/-! ### What one candidate changes -/

namespace CompactTopKSelector

/-- The farthest row, the last of those that are equally far. -/
structure Farthest (before : List Scored) (x : Scored) (after : List Scored) : Prop where
  le : ∀ a ∈ before, Scored.rank a ≤ Scored.rank x
  lt : ∀ b ∈ after, Scored.rank b < Scored.rank x

theorem Farthest.le_all {before after : List Scored} {x : Scored} (h : Farthest before x after) :
    ∀ e ∈ before ++ x :: after, Scored.rank e ≤ Scored.rank x := by
  intro e he
  rcases List.mem_append.mp he with he | he
  · exact h.le e he
  · rcases List.mem_cons.mp he with rfl | he
    · exact le_rfl
    · exact (h.lt e he).le

/-- The scan of `farthestIndex` over a part of the rows has found its farthest. -/
theorem scan_farthest {xs : List Scored} (hne : xs ≠ []) (rest : List Scored) :
    ∃ before x after, xs = before ++ x :: after ∧ Farthest before x after ∧
      xs.zipIdx.foldl (fun farthest entry =>
        if nearer entry.1.2 (((xs ++ rest)[farthest]?).getD entry.1).2 then farthest
        else entry.2) 0 = before.length := by
  induction xs using List.reverseRecOn generalizing rest with
  | nil => exact absurd rfl hne
  | append_singleton xs e ih =>
    rw [List.zipIdx_append, List.foldl_append, List.append_assoc]
    by_cases hxs : xs = []
    · subst hxs
      exact ⟨[], e, [], rfl, ⟨nofun, nofun⟩, by simp [nearer]⟩
    · obtain ⟨before, x, after, heq, hfar, hfold⟩ := ih hxs ([e] ++ rest)
      rw [hfold]
      have hx : ((xs ++ ([e] ++ rest))[before.length]?) = some x := by
        rw [heq]
        simp
      simp only [List.zipIdx_singleton, List.foldl_cons, List.foldl_nil, hx, Option.getD_some,
        Nat.zero_add]
      split_ifs with hlt
      · refine ⟨before, x, after ++ [e], by rw [heq]; simp, ⟨hfar.le, fun b hb => ?_⟩, rfl⟩
        rcases List.mem_append.mp hb with hb | hb
        · exact hfar.lt b hb
        · rw [List.mem_singleton.mp hb]
          exact nearer_iff.mp hlt
      · refine ⟨xs, e, [], rfl, ⟨fun a ha => ?_, nofun⟩, rfl⟩
        exact (hfar.le_all a (heq ▸ ha)).trans (not_nearer_iff.mp (by simpa using hlt))

theorem farthestIndex_spec {selected : List Scored} (hne : selected ≠ []) :
    ∃ before x after, selected = before ++ x :: after ∧ Farthest before x after ∧
      farthestIndex selected = before.length := by
  have h := scan_farthest hne []
  rwa [List.append_nil] at h

/-- What `consider` makes of a selector that holds no more than `k` rows. -/
inductive Considers (s : CompactTopKSelector) (c : Scored) : CompactTopKSelector → Prop
  | nothing (hzero : s.k = 0) : Considers s c s
  /-- A row comes back no nearer. -/
  | known {x : Scored} (hx : x ∈ s.selected) (hkey : x.1 = c.1) (hle : x.rank ≤ c.rank) :
      Considers s c s
  /-- A row comes back nearer. -/
  | nearer {before after : List Scored} {x : Scored} (heq : s.selected = before ++ x :: after)
      (hkey : x.1 = c.1) (hlt : c.rank < x.rank) :
      Considers s c { s with selected := before ++ after ++ [c] }
  /-- There is room for a new row. -/
  | room (hnew : c.1 ∉ s.selected.map Prod.fst) (hroom : s.selected.length < s.k) :
      Considers s c { s with selected := s.selected ++ [c] }
  /-- A new row is no nearer than the farthest. -/
  | far {before after : List Scored} {x : Scored} (heq : s.selected = before ++ x :: after)
      (hnew : c.1 ∉ s.selected.map Prod.fst) (hfull : s.selected.length = s.k)
      (hfar : Farthest before x after) (hle : x.rank ≤ c.rank) : Considers s c s
  /-- A new row replaces the farthest. -/
  | evict {before after : List Scored} {x : Scored} (heq : s.selected = before ++ x :: after)
      (hnew : c.1 ∉ s.selected.map Prod.fst) (hfull : s.selected.length = s.k)
      (hfar : Farthest before x after) (hlt : c.rank < x.rank) :
      Considers s c { s with selected := before ++ after ++ [c] }

variable {s : CompactTopKSelector} {c : Scored}

theorem place_considers (hpos : s.k ≠ 0) (hlen : s.selected.length ≤ s.k)
    (hnew : c.1 ∉ s.selected.map Prod.fst) : s.Considers c (s.place c) := by
  unfold place
  split_ifs with hfull
  · have hne : s.selected ≠ [] := fun h => hpos (by rw [← hfull, h]; rfl)
    obtain ⟨before, x, after, heq, hfar, hindex⟩ := farthestIndex_spec hne
    have hx : s.selected[before.length]? = some x := by rw [heq]; simp
    have herase : s.selected.eraseIdx before.length = before ++ after := by
      rw [heq, List.eraseIdx_append_of_length_le le_rfl, Nat.sub_self, List.eraseIdx_cons_zero]
    dsimp only
    rw [hindex, hx, herase]
    dsimp only
    split_ifs with hlt
    · exact .evict heq hnew hfull hfar (nearer_iff.mp hlt)
    · exact .far heq hnew hfull hfar (not_nearer_iff.mp (by simpa using hlt))
  · exact .room hnew (by omega)

theorem considers_consider (c : Scored) (hlen : s.selected.length ≤ s.k) :
    s.Considers c (s.consider c) := by
  unfold consider
  split_ifs with hzero
  · exact .nothing hzero
  split
  · rename_i x hfind
    obtain ⟨hkey, before, after, heq, hbefore⟩ := List.find?_eq_some_iff_append.mp hfind
    rw [beq_iff_eq] at hkey
    split_ifs with hlt
    · have hx : x ∉ before := fun hmem => by simpa [hkey] using hbefore x hmem
      have herase : s.selected.erase x = before ++ after := by
        rw [heq, List.erase_append_right _ hx, List.erase_cons_head]
      rw [herase, place, if_neg (by rw [heq] at hlen; simp at hlen ⊢; omega)]
      exact .nearer heq hkey (nearer_iff.mp hlt)
    · exact .known (heq ▸ List.mem_append_right _ List.mem_cons_self) hkey
        (not_nearer_iff.mp (by simpa using hlt))
  · rename_i hfind
    refine place_considers hzero hlen fun hmem => ?_
    obtain ⟨x, hx, hkey⟩ := List.mem_map.mp hmem
    simpa [hkey] using List.find?_eq_none.mp hfind x hx

theorem Considers.best {s' : CompactTopKSelector} {seen : List Scored} (hs : s.Considers c s')
    (h : Best Prod.fst Scored.rank s.k seen s.selected) :
    s'.k = s.k ∧ Best Prod.fst Scored.rank s.k (seen ++ [c]) s'.selected := by
  cases hs with
  | nothing hzero =>
    have hnil : s.selected = [] := List.length_eq_zero_iff.mp (by have := h.length_le; omega)
    exact ⟨rfl, h.skip (.inr ⟨by simp [hnil], by simp [hnil, hzero], by simp [hnil]⟩)⟩
  | known hx hkey hle => exact ⟨rfl, h.skip (.inl ⟨_, hx, hkey, hle⟩)⟩
  | nearer heq hkey hlt => exact ⟨rfl, (heq ▸ h).replace hlt (.inl hkey.symm)⟩
  | room hnew hroom => exact ⟨rfl, h.push hroom hnew⟩
  | far heq hnew hfull hfar hle =>
    refine ⟨rfl, h.skip (.inr ⟨hnew, hfull, fun e he => ?_⟩)⟩
    exact (hfar.le_all e (heq ▸ he)).trans hle
  | evict heq hnew hfull hfar hlt =>
    exact ⟨rfl, (heq ▸ h).replace hlt (.inr (heq ▸ ⟨hnew, hfull, heq ▸ hfar.le_all⟩))⟩

end CompactTopKSelector

/-! ### The indexed selector follows the compact one -/

def RankedCandidate.scored (c : RankedCandidate) : Scored := (c.rowId, c.distance)

/-- Both selectors hold the rows of `arrived`, in the order of arrival. -/
structure Follows (s : IndexedTopKSelector) (c : CompactTopKSelector)
    (arrived : List RankedCandidate) : Prop where
  k_eq : s.k = c.k
  selected : c.selected = arrived.map RankedCandidate.scored
  ascending : arrived.Pairwise fun a b => a.sequence < b.sequence
  fresh : ∀ a ∈ arrived, a.sequence < s.nextSequence
  nodup : (arrived.map RankedCandidate.rowId).Nodup
  ranked : s.ranked.Perm arrived
  sorted : s.ranked.Pairwise fun a b => a.before b = true
  lookup : ∀ r, s.byRowId.lookup r = arrived.find? fun a => a.rowId == r

namespace Follows

variable {s : IndexedTopKSelector} {c : CompactTopKSelector} {arrived : List RankedCandidate}

protected theorem new (k : ℕ) : Follows ⟨k, 0, [], []⟩ ⟨k, []⟩ [] where
  k_eq := rfl
  selected := rfl
  ascending := List.Pairwise.nil
  fresh := nofun
  nodup := List.nodup_nil
  ranked := List.Perm.nil
  sorted := List.Pairwise.nil
  lookup _ := rfl

theorem keys (h : Follows s c arrived) :
    c.selected.map Prod.fst = arrived.map RankedCandidate.rowId := by
  rw [h.selected, List.map_map]
  rfl

variable {a : RankedCandidate} {after : List RankedCandidate} {candidate : Scored}

theorem lookup_of_mem (h : Follows s c arrived) (ha : a ∈ arrived) :
    s.byRowId.lookup a.rowId = some a := by
  rw [h.lookup]
  obtain ⟨b, hb⟩ : ∃ b, (arrived.find? fun b => b.rowId == a.rowId) = some b :=
    Option.isSome_iff_exists.mp (List.find?_isSome.mpr ⟨a, ha, by simp⟩)
  have hkey : b.rowId = a.rowId := by simpa using List.find?_some hb
  rw [hb, List.inj_on_of_nodup_map h.nodup (List.mem_of_find?_eq_some hb) ha hkey]

theorem lookup_of_not_mem (h : Follows s c arrived) {r : ℕ}
    (hr : r ∉ arrived.map RankedCandidate.rowId) : s.byRowId.lookup r = none := by
  rw [h.lookup, List.find?_eq_none]
  exact fun a ha heq => hr (List.mem_map.mpr ⟨a, ha, by simpa using heq⟩)

theorem split (h : Follows s c arrived) {before after : List Scored} {x : Scored}
    (heq : c.selected = before ++ x :: after) :
    ∃ before' a after', arrived = before' ++ a :: after' ∧
      before'.map RankedCandidate.scored = before ∧ a.scored = x ∧
      after'.map RankedCandidate.scored = after := by
  rw [h.selected] at heq
  obtain ⟨before', tail, rfl, hbefore, htail⟩ := List.map_eq_append_iff.mp heq
  obtain ⟨a, after', rfl, ha, hafter⟩ := List.map_eq_cons_iff.mp htail
  exact ⟨before', a, after', rfl, hbefore, ha, hafter⟩

theorem remove {before : List RankedCandidate} (h : Follows s c (before ++ a :: after)) :
    Follows { s with
      ranked := s.ranked.erase a
      byRowId := s.byRowId.filter fun entry => entry.1 ≠ a.rowId }
      { c with selected := (before ++ after).map RankedCandidate.scored } (before ++ after) := by
  have hsub : (before ++ after).Sublist (before ++ a :: after) :=
    (List.sublist_cons_self ..).append_left _
  have hperm : (before ++ a :: after).Perm (a :: (before ++ after)) := List.perm_middle
  have hmem : a ∈ s.ranked := h.ranked.mem_iff.mpr (hperm.mem_iff.mpr List.mem_cons_self)
  have hnodup := (hperm.map RankedCandidate.rowId).nodup_iff.mp h.nodup
  rw [List.map_cons, List.nodup_cons] at hnodup
  refine ⟨h.k_eq, rfl, h.ascending.sublist hsub, fun b hb => h.fresh b (hsub.subset hb), hnodup.2,
    ?_, h.sorted.sublist List.erase_sublist, fun r => ?_⟩
  · exact ((List.perm_cons_erase hmem).symm.trans (h.ranked.trans hperm)).cons_inv
  · dsimp only
    rw [lookup_filter_ne, h.lookup]
    split_ifs with hr
    · rw [eq_comm, List.find?_eq_none]
      exact fun b hb heq => hnodup.1 (List.mem_map.mpr ⟨b, hb, by simpa [hr] using heq⟩)
    · rw [List.find?_append, List.find?_append, List.find?_cons_of_neg (by simpa using Ne.symm hr)]

theorem insert (h : Follows s c arrived) (hnew : candidate.1 ∉ arrived.map RankedCandidate.rowId) :
    Follows (s.insertCandidate candidate) { c with selected := c.selected ++ [candidate] }
      (arrived ++ [⟨candidate.1, candidate.2, s.nextSequence⟩]) := by
  set a : RankedCandidate := ⟨candidate.1, candidate.2, s.nextSequence⟩ with ha
  have hsplit : s.ranked.takeWhile (fun b => b.before a) ++
      s.ranked.dropWhile (fun b => b.before a) = s.ranked := List.takeWhile_append_dropWhile
  have hseq : ∀ b ∈ s.ranked, b.sequence < a.sequence := fun b hb =>
    h.fresh b (h.ranked.mem_iff.mp hb)
  have hdown : s.ranked.Pairwise fun b b' => b'.before a = true → b.before a = true :=
    h.sorted.imp_of_mem fun {b b'} hb _ hbb' hb'a => by
      have := hseq b hb
      rw [RankedCandidate.before_iff] at hbb' hb'a ⊢
      omega
  refine ⟨h.k_eq, ?_, ?_, ?_, ?_, ?_, ?_, fun r => ?_⟩
  · simp only [List.map_append, List.map_singleton, h.selected]
    rfl
  · rw [List.pairwise_append]
    refine ⟨h.ascending, List.pairwise_singleton .., fun b hb b' hb' => ?_⟩
    rw [List.mem_singleton.mp hb']
    exact h.fresh b hb
  · intro b hb
    change b.sequence < s.nextSequence + 1
    rcases List.mem_append.mp hb with hb | hb
    · exact (h.fresh b hb).trans (Nat.lt_succ_self _)
    · rw [List.mem_singleton.mp hb]
      exact Nat.lt_succ_self _
  · rw [List.map_append, List.map_singleton, ← List.concat_eq_append]
    exact h.nodup.concat hnew
  · change (s.ranked.takeWhile _ ++ a :: s.ranked.dropWhile _).Perm _
    refine List.perm_middle.trans ?_
    rw [hsplit]
    exact (h.ranked.cons a).trans (List.perm_append_singleton a arrived).symm
  · -- what is before the new row stays before it, and it is before all others
    change (s.ranked.takeWhile _ ++ a :: s.ranked.dropWhile _).Pairwise _
    have hlow : ∀ b ∈ s.ranked.takeWhile (fun b => b.before a), b.before a = true := by
      rw [takeWhile_eq_filter hdown]
      exact fun b hb => (List.mem_filter.mp hb).2
    have hhigh : ∀ b ∈ s.ranked.dropWhile (fun b => b.before a), a.before b = true := by
      rw [dropWhile_eq_filter_not hdown]
      intro b hb
      obtain ⟨hb, hnot⟩ := List.mem_filter.mp hb
      have hlt := hseq b hb
      rw [Bool.not_eq_true', ← Bool.not_eq_true, RankedCandidate.before_iff] at hnot
      rw [RankedCandidate.before_iff]
      omega
    have hsorted := hsplit.symm ▸ h.sorted
    rw [List.pairwise_append] at hsorted
    rw [List.pairwise_append, List.pairwise_cons]
    refine ⟨hsorted.1, ⟨hhigh, hsorted.2.1⟩, fun b hb b' hb' => ?_⟩
    rcases List.mem_cons.mp hb' with rfl | hb'
    · exact hlow b hb
    · exact hsorted.2.2 b hb b' hb'
  · change List.lookup r ((candidate.1, a) :: s.byRowId.filter fun e => e.1 ≠ candidate.1) = _
    rw [List.lookup_cons, lookup_filter_ne, List.find?_append]
    by_cases hr : r = candidate.1
    · subst hr
      have hnone : (arrived.find? fun b => b.rowId == candidate.1) = none := by
        rw [← h.lookup, h.lookup_of_not_mem hnew]
      simp [hnone, ha]
    · rw [beq_false_of_ne hr, if_neg hr, h.lookup]
      simp [ha, Ne.symm hr]

/-- The last of the ordered set is the farthest row, of equally far ones the latest. -/
theorem getLast {before : List RankedCandidate} (h : Follows s c (before ++ a :: after))
    (hfar : CompactTopKSelector.Farthest (before.map RankedCandidate.scored) a.scored
      (after.map RankedCandidate.scored)) :
    s.ranked.getLast? = some a := by
  have hmem : ∀ b, b ∈ s.ranked ↔ b ∈ before ∨ b = a ∨ b ∈ after := fun b => by
    rw [h.ranked.mem_iff, List.mem_append, List.mem_cons]
  obtain ⟨init, last, hlast⟩ := (List.eq_nil_or_concat' s.ranked).resolve_left
    (List.ne_nil_of_mem ((hmem a).mpr (.inr (.inl rfl))))
  have hsorted := h.sorted
  rw [hlast, List.pairwise_append] at hsorted
  rw [hlast, List.getLast?_concat, Option.some_inj]
  by_contra hne
  have hinit : a ∈ init := by
    have ha := (hmem a).mpr (.inr (.inl rfl))
    rw [hlast, List.mem_append, List.mem_singleton] at ha
    exact ha.resolve_right (Ne.symm hne)
  have hbefore := RankedCandidate.before_iff.mp (hsorted.2.2 a hinit last (by simp))
  have hasc := h.ascending
  rw [List.pairwise_append, List.pairwise_cons] at hasc
  rcases (hmem last).mp (hlast ▸ List.mem_append_right _ List.mem_cons_self) with hin | rfl | hin
  · have hle : last.distance.totalKey ≤ a.distance.totalKey :=
      hfar.le _ (List.mem_map_of_mem hin)
    have hlt := hasc.2.2 last hin a List.mem_cons_self
    omega
  · exact hne rfl
  · have hlt : last.distance.totalKey < a.distance.totalKey :=
      hfar.lt _ (List.mem_map_of_mem hin)
    omega

theorem consider (h : Follows s c arrived) (hlen : c.selected.length ≤ c.k)
    {c' : CompactTopKSelector} (hc : c.Considers candidate c') :
    ∃ arrived', Follows (s.consider candidate) c' arrived' := by
  have hlength : s.ranked.length = c.selected.length := by
    rw [h.ranked.length_eq, h.selected, List.length_map]
  have hpos : ∀ x ∈ c.selected, s.k ≠ 0 := fun x hx hzero => by
    have := List.length_pos_of_mem hx
    have := h.k_eq
    omega
  have hnone : candidate.1 ∉ c.selected.map Prod.fst → s.byRowId.lookup candidate.1 = none :=
    fun hnew => h.lookup_of_not_mem (h.keys ▸ hnew)
  unfold IndexedTopKSelector.consider
  cases hc with
  | nothing hzero =>
    rw [if_pos (h.k_eq.trans hzero)]
    exact ⟨arrived, h⟩
  | known hx hkey hle =>
    rw [if_neg (hpos _ hx)]
    rw [h.selected] at hx
    obtain ⟨a, ha, rfl⟩ := List.mem_map.mp hx
    rw [← hkey, show a.scored.1 = a.rowId from rfl, h.lookup_of_mem ha]
    dsimp only
    rw [if_neg (by rw [nearer_iff]; exact not_lt.mpr hle)]
    exact ⟨arrived, h⟩
  | @nearer before after x heq hkey hlt =>
    rw [if_neg (hpos x (heq ▸ List.mem_append_right _ List.mem_cons_self))]
    obtain ⟨before, a, after, rfl, rfl, rfl, rfl⟩ := h.split heq
    have hnew : candidate.1 ∉ (before ++ after).map RankedCandidate.rowId := by
      have hnodup := ((List.perm_middle).map RankedCandidate.rowId).nodup_iff.mp h.nodup
      exact hkey ▸ (List.nodup_cons.mp hnodup).1
    rw [← hkey, show a.scored.1 = a.rowId from rfl,
      h.lookup_of_mem (List.mem_append_right _ List.mem_cons_self)]
    dsimp only
    rw [if_pos (nearer_iff.mpr hlt : nearer candidate.2 a.distance = true)]
    -- the index drops the old entry of the row when the new one is stored
    have hstep := h.remove.insert hnew
    simp only [IndexedTopKSelector.insertCandidate, List.map_append, List.filter_filter,
      ← hkey, show a.scored.1 = a.rowId from rfl, Bool.and_self] at hstep ⊢
    exact ⟨_, hstep⟩
  | room hnew hroom =>
    rw [if_neg (by have := h.k_eq; omega), hnone hnew]
    dsimp only
    rw [if_neg (by have := h.k_eq; omega)]
    exact ⟨_, h.insert (h.keys ▸ hnew)⟩
  | @far before after x heq hnew hfull hfar hle =>
    rw [if_neg (hpos x (heq ▸ List.mem_append_right _ List.mem_cons_self)), hnone hnew]
    obtain ⟨before, a, after, rfl, rfl, rfl, rfl⟩ := h.split heq
    dsimp only
    rw [if_pos (hlength.trans (hfull.trans h.k_eq.symm)), h.getLast hfar]
    dsimp only
    rw [if_neg (by rw [nearer_iff]; exact not_lt.mpr hle)]
    exact ⟨_, h⟩
  | @evict before after x heq hnew hfull hfar hlt =>
    rw [if_neg (hpos x (heq ▸ List.mem_append_right _ List.mem_cons_self)), hnone hnew]
    obtain ⟨before, a, after, rfl, rfl, rfl, rfl⟩ := h.split heq
    dsimp only
    rw [if_pos (hlength.trans (hfull.trans h.k_eq.symm)), h.getLast hfar]
    dsimp only
    rw [if_pos (nearer_iff.mpr hlt : nearer candidate.2 a.distance = true)]
    have hnew' : candidate.1 ∉ (before ++ after).map RankedCandidate.rowId := fun hmem => by
      rw [h.keys] at hnew
      exact hnew (((List.sublist_cons_self ..).append_left _).map _ |>.subset hmem)
    have hstep := h.remove.insert hnew'
    rw [List.map_append] at hstep
    exact ⟨_, hstep⟩

/-- The ordered set is the arrival list, sorted so that equally far rows keep their
order. -/
theorem intoSorted_eq (h : Follows s c arrived) : c.intoSorted = s.intoSorted := by
  have hsort : arrived.mergeSort (fun a b => !nearer b.distance a.distance) = s.ranked := by
    refine mergeSort_eq_of_perm ?_ ?_ h.ascending h.ranked (h.sorted.imp fun {a b} hab => ?_)
    · intro a b c hab hbc
      simp only [Bool.not_eq_true', not_nearer_iff] at hab hbc ⊢
      exact hab.trans hbc
    · intro a b
      simp only [Bool.or_eq_true, Bool.not_eq_true', not_nearer_iff]
      exact le_total _ _
    · rw [RankedCandidate.before_iff] at hab
      simp only [Bool.not_eq_true', not_nearer_iff]
      omega
  rw [CompactTopKSelector.intoSorted, h.selected, IndexedTopKSelector.intoSorted, ← hsort]
  exact (List.map_mergeSort (f := RankedCandidate.scored) (l := arrived) fun _ _ _ _ => rfl).symm

end Follows

/-! ### Whole streams -/

/-- After any stream of candidates both selectors hold the same rows, the best `k`. -/
theorem selectors_follow (k : ℕ) (candidates : List Scored) :
    ∃ arrived, Follows (candidates.foldl IndexedTopKSelector.consider ⟨k, 0, [], []⟩)
        (candidates.foldl CompactTopKSelector.consider ⟨k, []⟩) arrived ∧
      (candidates.foldl CompactTopKSelector.consider ⟨k, []⟩).k = k ∧
      Best Prod.fst Scored.rank k candidates
        (candidates.foldl CompactTopKSelector.consider ⟨k, []⟩).selected := by
  induction candidates using List.reverseRecOn with
  | nil => exact ⟨[], Follows.new k, rfl, Best.nil⟩
  | append_singleton candidates c ih =>
    obtain ⟨arrived, hfollows, hk, hbest⟩ := ih
    rw [List.foldl_concat, List.foldl_concat]
    have hlen := hbest.length_le.trans_eq hk.symm
    have hstep := CompactTopKSelector.considers_consider c hlen
    obtain ⟨hk', hbest'⟩ := hstep.best (by rw [hk]; exact hbest)
    obtain ⟨arrived', hfollows'⟩ := hfollows.consider hlen hstep
    rw [hk] at hbest'
    exact ⟨arrived', hfollows', hk'.trans hk, hbest'⟩

theorem CompactTopKSelector.intoSorted_pairwise (s : CompactTopKSelector) :
    s.intoSorted.Pairwise fun a b => Scored.rank a ≤ Scored.rank b := by
  have hsorted := @List.pairwise_mergeSort Scored (fun a b => !nearer b.2 a.2)
    (fun a b c hab hbc => by
      simp only [Bool.not_eq_true', not_nearer_iff] at hab hbc ⊢
      exact hab.trans hbc)
    (fun a b => by
      simp only [Bool.or_eq_true, Bool.not_eq_true', not_nearer_iff]
      exact le_total _ _) s.selected
  refine hsorted.imp fun hab => ?_
  rwa [Bool.not_eq_true', not_nearer_iff] at hab

/-- The two selectors return the same list for every stream of candidates: the
nearest `k` rows in order of distance, each once, at the least distance at which it
came. -/
theorem selectors_exact (k : ℕ) (candidates : List Scored) :
    let compact := (candidates.foldl CompactTopKSelector.consider ⟨k, []⟩).intoSorted
    compact = (candidates.foldl IndexedTopKSelector.consider ⟨k, 0, [], []⟩).intoSorted ∧
      (compact.Pairwise fun a b => a.2.totalKey ≤ b.2.totalKey) ∧
      compact.length = min k (candidates.map Prod.fst).dedup.length ∧
      (compact.map Prod.fst).Nodup ∧
      (∀ p ∈ compact, p ∈ candidates ∧
        ∀ q ∈ candidates, q.1 = p.1 → p.2.totalKey ≤ q.2.totalKey) ∧
      ∀ q ∈ candidates, q.1 ∉ compact.map Prod.fst →
        ∀ p ∈ compact, p.2.totalKey ≤ q.2.totalKey := by
  obtain ⟨arrived, hfollows, -, hkept⟩ := selectors_follow k candidates
  have hbest := hkept.perm (List.mergeSort_perm _ fun a b => !nearer b.2 a.2)
  exact ⟨hfollows.intoSorted_eq, CompactTopKSelector.intoSorted_pairwise _, hbest.length_eq,
    hbest.nodup, fun p hp => ⟨hbest.subset p hp, hbest.least p hp⟩,
    fun q hq hnot => (hbest.omitted q hq hnot).2⟩

theorem TopKSelector.best_intoSorted (k : ℕ) (candidates : List Scored) :
    Best Prod.fst Scored.rank k candidates
      (candidates.foldl TopKSelector.consider (.new k)).intoSorted := by
  obtain ⟨arrived, hfollows, -, hkept⟩ := selectors_follow k candidates
  have hbest := hkept.perm (List.mergeSort_perm _ fun a b => !nearer b.2 a.2)
  unfold TopKSelector.new
  split_ifs
  · have hfold : candidates.foldl TopKSelector.consider (.compact ⟨k, []⟩) =
        .compact (candidates.foldl CompactTopKSelector.consider ⟨k, []⟩) :=
      List.foldl_hom _ fun _ _ => rfl
    rw [hfold]
    exact hbest
  · have hfold : candidates.foldl TopKSelector.consider (.indexed ⟨k, 0, [], []⟩) =
        .indexed (candidates.foldl IndexedTopKSelector.consider ⟨k, 0, [], []⟩) :=
      List.foldl_hom _ fun _ _ => rfl
    rw [hfold, TopKSelector.intoSorted, ← hfollows.intoSorted_eq]
    exact hbest

end StrataDB.Index
