import Mathlib.Data.List.Dedup
import Mathlib.Data.List.Nodup
import Mathlib.Data.List.Perm.Subperm
import Mathlib.Data.List.Sort

/-! The best `k` of a stream. An element has a key and a rank, and may come more
than once under its key with another rank; of every key only the least rank
counts. What is kept covers what was dropped: a key is left out only while `k`
others are kept that rank no higher. -/

namespace StrataDB.Lib

variable {α κ ρ : Type*} [LinearOrder ρ]

/-- `kept` are the `k` best of `seen`, one for each key. -/
structure Best (key : α → κ) (rank : α → ρ) (k : ℕ) (seen kept : List α) : Prop where
  nodup : (kept.map key).Nodup
  subset : ∀ e ∈ kept, e ∈ seen
  least : ∀ e ∈ kept, ∀ o ∈ seen, key o = key e → rank e ≤ rank o
  omitted : ∀ o ∈ seen, key o ∉ kept.map key →
    kept.length = k ∧ ∀ e ∈ kept, rank e ≤ rank o
  length_le : kept.length ≤ k

namespace Best

variable {key : α → κ} {rank : α → ρ} {k : ℕ} {seen kept before after : List α} {x c : α}

protected theorem nil : Best key rank k [] [] :=
  ⟨List.nodup_nil, nofun, nofun, nofun, Nat.zero_le _⟩

/-- The order in which the elements are kept does not matter. -/
theorem perm (h : Best key rank k seen kept) {kept' : List α} (hperm : kept'.Perm kept) :
    Best key rank k seen kept' where
  nodup := (hperm.map key).nodup_iff.mpr h.nodup
  subset e he := h.subset e (hperm.mem_iff.mp he)
  least e he := h.least e (hperm.mem_iff.mp he)
  omitted o ho hnot := by
    obtain ⟨hlen, hall⟩ := h.omitted o ho fun hmem => hnot ((hperm.map key).mem_iff.mpr hmem)
    exact ⟨hperm.length_eq.trans hlen, fun e he => hall e (hperm.mem_iff.mp he)⟩
  length_le := hperm.length_eq.trans_le h.length_le

/-- An element under a key that is not among the others joins them. -/
theorem concat {rest : List α} (hnodup : (rest.map key).Nodup) (hsubset : ∀ e ∈ rest, e ∈ seen)
    (hleast : ∀ e ∈ rest, ∀ o ∈ seen, key o = key e → rank e ≤ rank o)
    (hnew : key c ∉ rest.map key) (hc : ∀ o ∈ seen, key o = key c → rank c ≤ rank o)
    (homitted : ∀ o ∈ seen, key o ∉ rest.map key → key o ≠ key c →
      rest.length + 1 = k ∧ rank c ≤ rank o ∧ ∀ e ∈ rest, rank e ≤ rank o)
    (hlen : rest.length + 1 ≤ k) : Best key rank k (seen ++ [c]) (rest ++ [c]) where
  nodup := by
    rw [List.map_append, List.map_singleton, ← List.concat_eq_append]
    exact hnodup.concat hnew
  subset e he := by
    rcases List.mem_append.mp he with he | he
    · exact List.mem_append_left _ (hsubset e he)
    · exact List.mem_append_right _ he
  least e he o ho hkey := by
    simp only [List.mem_append, List.mem_singleton] at he ho
    rcases he with he | rfl <;> rcases ho with ho | rfl
    · exact hleast e he o ho hkey
    · exact absurd (hkey ▸ List.mem_map_of_mem he) hnew
    · exact hc o ho hkey
    · exact le_rfl
  omitted o ho hnot := by
    simp only [List.map_append, List.map_singleton, List.mem_append, List.mem_singleton,
      not_or] at ho hnot
    rcases ho with ho | rfl
    · obtain ⟨hk, hle, hall⟩ := homitted o ho hnot.1 hnot.2
      refine ⟨by rw [List.length_append, List.length_singleton, hk], fun e he => ?_⟩
      rcases List.mem_append.mp he with he | he
      · exact hall e he
      · rwa [List.mem_singleton.mp he]
    · exact absurd rfl hnot.2
  length_le := by rwa [List.length_append, List.length_singleton]

/-- While there is room every key is kept. -/
theorem push (h : Best key rank k seen kept) (hroom : kept.length < k)
    (hnew : key c ∉ kept.map key) : Best key rank k (seen ++ [c]) (kept ++ [c]) := by
  have hkept : ∀ o ∈ seen, key o ∈ kept.map key := fun o ho => by
    by_contra hnot
    have := (h.omitted o ho hnot).1
    omega
  exact concat h.nodup h.subset h.least hnew
    (fun o ho hkey => absurd (hkey ▸ hkept o ho) hnew)
    (fun o ho hnot _ => absurd (hkept o ho) hnot) hroom

/-- Nothing changes for an element that does not improve on what is kept. -/
theorem skip (h : Best key rank k seen kept)
    (hc : (∃ e ∈ kept, key e = key c ∧ rank e ≤ rank c) ∨
      key c ∉ kept.map key ∧ kept.length = k ∧ ∀ e ∈ kept, rank e ≤ rank c) :
    Best key rank k (seen ++ [c]) kept where
  nodup := h.nodup
  subset e he := List.mem_append_left _ (h.subset e he)
  least e he o ho hkey := by
    rcases List.mem_append.mp ho with ho | ho
    · exact h.least e he o ho hkey
    · rw [List.mem_singleton] at ho
      subst ho
      rcases hc with ⟨e', he', hkey', hle⟩ | ⟨hnew, -⟩
      · rwa [List.inj_on_of_nodup_map h.nodup he he' (hkey.symm.trans hkey'.symm)]
      · exact absurd (hkey ▸ List.mem_map_of_mem he) hnew
  omitted o ho hnot := by
    rcases List.mem_append.mp ho with ho | ho
    · exact h.omitted o ho hnot
    · rw [List.mem_singleton] at ho
      subst ho
      rcases hc with ⟨e', he', hkey', -⟩ | ⟨-, hfull⟩
      · exact absurd (hkey' ▸ List.mem_map_of_mem he') hnot
      · exact hfull
  length_le := h.length_le

/-- An element that ranks below `x` takes its place: as the same key, or as a new one
when there is no room and `x` ranks highest. -/
theorem replace (h : Best key rank k seen (before ++ x :: after)) (hlt : rank c < rank x)
    (hc : key c = key x ∨ key c ∉ (before ++ x :: after).map key ∧
      (before ++ x :: after).length = k ∧ ∀ e ∈ before ++ x :: after, rank e ≤ rank x) :
    Best key rank k (seen ++ [c]) (before ++ after ++ [c]) := by
  have hperm : (before ++ x :: after).Perm (x :: (before ++ after)) := List.perm_middle
  have hold := h.perm hperm.symm
  rw [hperm.length_eq, (hperm.map key).mem_iff, List.map_cons, List.mem_cons, not_or] at hc
  simp only [hperm.mem_iff, List.forall_mem_cons, le_refl, true_and] at hc
  obtain ⟨hx, hrest⟩ := List.nodup_cons.mp hold.nodup
  have hnew : key c ∉ (before ++ after).map key := by
    rcases hc with hc | ⟨⟨-, hc⟩, -⟩
    · rwa [hc]
    · exact hc
  refine concat hrest (fun e he => hold.subset e (List.mem_cons_of_mem _ he))
    (fun e he => hold.least e (List.mem_cons_of_mem _ he)) hnew (fun o ho hkey => ?_)
    (fun o ho hnot hne => ?_) hold.length_le
  · -- all that was seen under its key ranks no lower than `x`
    rcases hc with hc | ⟨hc, -⟩
    · exact hlt.le.trans (hold.least x List.mem_cons_self o ho (hkey.trans hc))
    · refine hlt.le.trans ((hold.omitted o ho ?_).2 x List.mem_cons_self)
      rwa [hkey, List.map_cons, List.mem_cons, not_or]
  · -- either `x` was the element of this key, or the key was left out before
    have hall : (before ++ after).length + 1 = k ∧ rank x ≤ rank o ∧
        ∀ e ∈ before ++ after, rank e ≤ rank o := by
      by_cases hkey : key o = key x
      · obtain ⟨-, hfull, hmax⟩ := hc.resolve_left fun hc => hne (hkey.trans hc.symm)
        have hxo := hold.least x List.mem_cons_self o ho hkey
        exact ⟨hfull, hxo, fun e he => (hmax e he).trans hxo⟩
      · obtain ⟨hfull, hle⟩ := hold.omitted o ho (by
          rw [List.map_cons, List.mem_cons, not_or]
          exact ⟨hkey, hnot⟩)
        exact ⟨hfull, List.forall_mem_cons.mp hle⟩
    exact ⟨hall.1, hlt.le.trans hall.2.1, hall.2.2⟩

/-- As many are kept as there are keys, up to `k`. -/
theorem length_eq [DecidableEq κ] (h : Best key rank k seen kept) :
    kept.length = min k (seen.map key).dedup.length := by
  have hle : kept.length ≤ (seen.map key).dedup.length := by
    rw [← List.length_map key]
    refine (h.nodup.subperm fun a ha => ?_).length_le
    obtain ⟨e, he, rfl⟩ := List.mem_map.mp ha
    exact List.mem_dedup.mpr (List.mem_map_of_mem (h.subset e he))
  by_cases hall : ∀ o ∈ seen, key o ∈ kept.map key
  · have hge : (seen.map key).dedup.length ≤ kept.length := by
      rw [← List.length_map key]
      refine ((List.nodup_dedup _).subperm fun a ha => ?_).length_le
      obtain ⟨o, ho, rfl⟩ := List.mem_map.mp (List.mem_dedup.mp ha)
      exact hall o ho
    have := h.length_le
    omega
  · push Not at hall
    obtain ⟨o, ho, hnot⟩ := hall
    have := (h.omitted o ho hnot).1
    omega

end Best

/-! ### Stable sorting -/

variable {xs : List α} {rank : α → ρ}

/-- Sorting keeps equal elements in their order: the result is the arrangement in
which, of two equal ones, the one that came first stands first. -/
theorem mergeSort_eq_of_perm {le : α → α → Bool}
    (htrans : ∀ a b c, le a b = true → le b c = true → le a c = true)
    (htotal : ∀ a b, (le a b || le b a) = true) {position : α → ℕ} {ys : List α}
    (hxs : xs.Pairwise fun a b => position a < position b) (hperm : ys.Perm xs)
    (hys : ys.Pairwise fun a b => le a b = true ∧ (le b a = true → position a < position b)) :
    xs.mergeSort le = ys := by
  have hsorted : (xs.mergeSort le).Pairwise fun a b =>
      le a b = true ∧ (le b a = true → position a < position b) := by
    rw [← List.mergeSort_zipIdx, List.pairwise_map]
    have hle := List.pairwise_mergeSort (List.zipIdxLE_trans htrans)
      (List.zipIdxLE_total htotal) xs.zipIdx
    have hzip : (xs.zipIdx.mergeSort (List.zipIdxLE le)).Perm xs.zipIdx :=
      List.mergeSort_perm ..
    have hne : (xs.zipIdx.mergeSort (List.zipIdxLE le)).Pairwise fun a b => a.2 ≠ b.2 := by
      rw [← List.pairwise_map (f := Prod.snd) (R := (· ≠ ·))]
      refine (hzip.map _).nodup_iff.mpr ?_
      rw [List.zipIdx_map_snd]
      exact List.nodup_range'
    refine (hle.and hne).imp_of_mem fun {a b} ha hb hab => ?_
    obtain ⟨hab, hne⟩ := hab
    unfold List.zipIdxLE at hab
    split_ifs at hab with h₁ h₂
    · refine ⟨h₁, fun _ => ?_⟩
      have hlt : a.2 < b.2 := lt_of_le_of_ne (by simpa using hab) hne
      have hia := List.mk_mem_zipIdx_iff_getElem?.mp (hzip.mem_iff.mp ha)
      have hib := List.mk_mem_zipIdx_iff_getElem?.mp (hzip.mem_iff.mp hb)
      obtain ⟨ha', hia⟩ := List.getElem?_eq_some_iff.mp hia
      obtain ⟨hb', hib⟩ := List.getElem?_eq_some_iff.mp hib
      rw [← hia, ← hib]
      exact List.pairwise_iff_getElem.mp hxs _ _ ha' hb' hlt
    · exact ⟨h₁, fun h => absurd h h₂⟩
  refine List.Perm.eq_of_pairwise (fun a b _ _ hab hba => ?_) hsorted hys
    ((List.mergeSort_perm ..).trans hperm.symm)
  exact absurd (hab.2 hba.1) (hba.2 hab.1).not_gt

theorem orderedInsert_append {r : α → α → Prop} [DecidableRel r] {a : α} {ys zs : List α}
    (hys : ∀ b ∈ ys, ¬ r a b) (hzs : ∀ b ∈ zs, r a b) :
    (ys ++ zs).orderedInsert r a = ys ++ a :: zs := by
  induction ys with
  | nil => cases zs <;> simp_all
  | cons b ys ih => simp_all

/-- Both sorts keep equal elements in their order. -/
theorem insertionSort_eq_mergeSort {le : α → α → Bool}
    (htrans : ∀ a b c, le a b = true → le b c = true → le a c = true)
    (htotal : ∀ a b, (le a b || le b a) = true) (xs : List α) :
    xs.insertionSort (fun a b => le a b = true) = xs.mergeSort le := by
  induction xs with
  | nil => simp
  | cons a xs ih =>
    obtain ⟨ys, zs, hcons, heq, hys⟩ := List.mergeSort_cons htrans htotal a xs
    have hsorted := List.pairwise_mergeSort htrans htotal (a :: xs)
    rw [hcons, List.pairwise_append, List.pairwise_cons] at hsorted
    rw [List.insertionSort_cons, ih, heq, hcons]
    exact orderedInsert_append (fun b hb => by simpa using hys b hb) hsorted.2.1.1

theorem pairwise_lt_mergeSort (hnodup : (xs.map rank).Nodup) :
    (xs.mergeSort fun a b => decide (rank a ≤ rank b)).Pairwise fun a b => rank a < rank b := by
  have hle : (xs.mergeSort fun a b => decide (rank a ≤ rank b)).Pairwise fun a b =>
      decide (rank a ≤ rank b) = true :=
    List.pairwise_mergeSort (by simpa using fun a b c => le_trans (b := rank b))
      (by simpa using fun a b => le_total (rank a) (rank b)) xs
  have hne : (xs.mergeSort fun a b => decide (rank a ≤ rank b)).Pairwise fun a b =>
      rank a ≠ rank b := by
    rw [← List.pairwise_map (f := rank) (R := (· ≠ ·))]
    exact ((List.mergeSort_perm ..).map rank).nodup_iff.mpr hnodup
  exact (hle.and hne).imp fun h => lt_of_le_of_ne (of_decide_eq_true h.1) h.2

theorem pairwise_lt_insertionSort (hnodup : (xs.map rank).Nodup) :
    (xs.insertionSort fun a b => rank a ≤ rank b).Pairwise fun a b => rank a < rank b := by
  have htotal : Std.Total fun a b : α => rank a ≤ rank b := ⟨fun a b => le_total (rank a) (rank b)⟩
  have htrans : IsTrans α fun a b => rank a ≤ rank b := ⟨fun _ _ _ => le_trans⟩
  have hne : (xs.insertionSort fun a b => rank a ≤ rank b).Pairwise fun a b =>
      rank a ≠ rank b :=
    List.pairwise_map.mp (((List.perm_insertionSort _ xs).map rank).nodup_iff.mpr hnodup)
  exact ((List.pairwise_insertionSort _ xs).and hne).imp fun h => lt_of_le_of_ne h.1 h.2

/-- An entry of an ascending list is not among the last ones when enough greater ones
follow it. -/
theorem notMem_drop_length_sub_iff [LinearOrder α] (h : xs.Pairwise (· < ·)) {x : α} (hx : x ∈ xs)
    (keep : ℕ) : x ∉ xs.drop (xs.length - keep) ↔ keep ≤ (xs.filter fun y => x < y).length := by
  obtain ⟨before, after, rfl⟩ := List.append_of_mem hx
  rw [List.pairwise_append, List.pairwise_cons] at h
  obtain ⟨-, ⟨hafter, -⟩, hcross⟩ := h
  have hbefore : ∀ y ∈ before, y < x := fun y hy => hcross y hy x List.mem_cons_self
  have hgreater : (before ++ x :: after).filter (fun y => x < y) = after := by
    rw [List.filter_append, List.filter_cons_of_neg (by simp),
      List.filter_eq_nil_iff.mpr fun y hy => by simpa using (hbefore y hy).le,
      List.filter_eq_self.mpr fun y hy => by simpa using hafter y hy, List.nil_append]
  have hlength : (before ++ x :: after).length = before.length + (after.length + 1) := by simp
  rw [hgreater, hlength, List.drop_append]
  constructor
  · intro hmem
    by_contra hlt
    refine hmem (List.mem_append_right _ ?_)
    rw [Nat.sub_eq_zero_of_le (by omega)]
    exact List.mem_cons_self
  · intro hle hmem
    rcases List.mem_append.mp hmem with hmem | hmem
    · exact lt_irrefl x (hbefore x (List.mem_of_mem_drop hmem))
    · obtain ⟨n, hn⟩ : ∃ n, before.length + (after.length + 1) - keep - before.length = n + 1 :=
        ⟨after.length - keep, by omega⟩
      rw [hn] at hmem
      exact lt_irrefl x (hafter x (List.mem_of_mem_drop hmem))

end StrataDB.Lib
